import Mathlib
import MarkerLattice.Proofs.Script.Edit
import MarkerLattice.Proofs.Script.Unfold

/-! Conditions as a system of equations over the nodes of a graph, one for each
node. Without cycles the system has one solution, and it is what unfolding
gives. -/
namespace MarkerLattice

theorem toLower_eq_iff {c t : Char} (lower : t.isLower = true) :
    c.toLower = t ↔ c = t ∨ c = t.toUpper := by
  have hA : 'A'.val.toNat = 65 := rfl
  have hZ : 'Z'.val.toNat = 90 := rfl
  have ha : 'a'.val.toNat = 97 := rfl
  have hz : 'z'.val.toNat = 122 := rfl
  have down : ('a'.val - 'A'.val).toNat = 32 := rfl
  have up : ('A'.val - 'a'.val).toNat = 2 ^ 32 - 32 := rfl
  simp only [Char.isLower, ge_iff_le, Bool.and_eq_true, decide_eq_true_eq,
    UInt32.le_iff_toNat_le, ha, hz] at lower
  simp only [Char.toLower, Char.toUpper, Char.ext_iff, UInt32.le_iff_toNat_le, ge_iff_le, hA,
    hZ, ha, hz, lower, and_self, dif_pos, ← UInt32.toNat_inj]
  split
  · simp only [UInt32.toNat_add, up, down]
    omega
  · simp only [UInt32.toNat_add, up]
    omega

def SpelledAs (text word : List Char) : Prop :=
  List.Forall₂ (fun c t => c = t ∨ c = t.toUpper) text word

theorem map_toLower_eq_iff {text word : List Char} (lower : ∀ t ∈ word, t.isLower = true) :
    text.map Char.toLower = word ↔ SpelledAs text word := by
  unfold SpelledAs
  induction word generalizing text with
  | nil => simp
  | cons t word ih =>
    rw [List.forall_mem_cons] at lower
    cases text with
    | nil => simp
    | cons c text => simp [toLower_eq_iff lower.1, ih lower.2]

instance (text word : List Char) : Decidable (SpelledAs text word) :=
  inferInstanceAs (Decidable (List.Forall₂ _ _ _))

theorem Pin.defaultBool_eq (p : Pin) :
    p.defaultBool = decide (SpelledAs p.defaultText.toList ['t', 'r', 'u', 'e']) := by
  have lower : ∀ t ∈ ['t', 'r', 'u', 'e'], t.isLower = true :=
    List.all_eq_true.mp rfl
  rw [Bool.eq_iff_iff, decide_eq_true_eq, ← map_toLower_eq_iff lower, ← String.toList_map,
    Pin.defaultBool, beq_iff_eq, ← String.toList_inj]
  rfl

namespace Script

variable (s : Script) (present : String → Bool)

def worth (v : Node → Bool) (n : Node) (pin : String) : Bool :=
  match s.reading n pin with
  | .nothing => false
  | .default p => decide (SpelledAs p.defaultText.toList ['t', 'r', 'u', 'e'])
  | .source m => v m

/-- What the equation of a node makes of the worth of its pins. -/
def equation (v : Node → Bool) (n : Node) : Bool :=
  match n.kind with
  | .result => s.worth v n Pin.select
  | .logicalAnd => s.worth v n Pin.a && s.worth v n Pin.b
  | .logicalOr => s.worth v n Pin.a || s.worth v n Pin.b
  | .logicalNot => !s.worth v n Pin.defaultInput
  | .markerExists name => present name
  | .onPass | .emitMarker _ | .removeMarker _ => false

/-- The equations of `n` and of the conditions behind it hold. -/
def Solves (n : Node) (v : Node → Bool) : Prop :=
  ∀ m, s.Reaches n m → v m = s.equation present v m

variable {s present} {n : Node}

theorem holds_operand (f : Node → Condition) (n : Node) (pin : String) :
    (s.operand f n pin).holds present = s.worth (fun m => (f m).holds present) n pin := by
  unfold operand worth
  cases s.reading n pin with
  | nothing => rfl
  | default p => exact p.defaultBool_eq
  | source m =>
    dsimp only
    split <;> rfl

theorem holds_layer (f : Node → Condition) (n : Node) :
    (s.layer f n).holds present = s.equation present (fun m => (f m).holds present) n := by
  unfold layer equation
  cases n.kind <;> simp only [Condition.holds, holds_operand]

theorem equation_congr {v u : Node → Bool} (same : ∀ m, s.Reads n m → v m = u m) :
    s.equation present v n = s.equation present u n := by
  have worth (pin : String) : s.worth v n pin = s.worth u n pin := by
    unfold Script.worth
    cases h : s.reading n pin with
    | nothing => rfl
    | default p => rfl
    | source m => exact same m (reads_of_reading h)
  unfold equation
  simp only [worth]

theorem Solves.unique (acyclic : s.Acyclic n) {v u : Node → Bool}
    (hv : s.Solves present n v) (hu : s.Solves present n u) : ∀ m, s.Reaches n m → u m = v m := by
  intro m reach
  refine Acyclic.induction (P := fun m => s.Reaches n m → u m = v m)
    (acyclic.of_reaches reach) (fun m _ ih reach => ?_) reach
  rw [hv m reach, hu m reach]
  exact equation_congr fun k read => ih k read (reach.tail read)

/-- Behind a node without cycles the node equations have one solution, and the
value of the condition is the worth of the node in it. -/
theorem holds_eq_solution (distinct : (s.nodes.map Node.id).Nodup) (hn : n ∈ s.nodes)
    (acyclic : s.Acyclic n) (present : String → Bool) :
    ∃ v, s.Solves present n v ∧
      (∀ u, s.Solves present n u → ∀ m, s.Reaches n m → u m = v m) ∧
      (s.condition n).holds present = v n := by
  have solves : s.Solves present n fun m => (s.condition m).holds present := by
    intro m reach
    have found := Reaches.node? (node?_of_mem distinct hn) reach
    dsimp only
    rw [(acyclic.of_reaches reach).condition_eq found, holds_layer]
  exact ⟨_, solves, fun u hu => solves.unique acyclic hu, rfl⟩

def sharing : Script := withEntries.run [
  .createNode (.markerExists "Wall"), .createNode .logicalNot, .createNode .logicalAnd,
  .link 2 Pin.defaultOutput 3 Pin.defaultInput, .link 2 Pin.defaultOutput 4 Pin.a,
  .link 3 Pin.defaultOutput 4 Pin.b, .link 4 Pin.defaultOutput 0 Pin.select]

theorem holds_eq_solution_sharing : ∃ n ∈ sharing.nodes, n.kind = .result ∧
    sharing.Acyclic n ∧ ∃ v, sharing.Solves (· == "Wall") n v ∧
      (∀ u, sharing.Solves (· == "Wall") n u → ∀ m, sharing.Reaches n m → u m = v m) ∧
      (sharing.condition n).holds (· == "Wall") = v n := by
  have distinct : (sharing.nodes.map Node.id).Nodup := by decide +kernel
  have entry : ∃ n ∈ sharing.nodes, n.kind = .result := by decide +kernel
  obtain ⟨n, hn, kind⟩ := entry
  have acyclic : sharing.Acyclic n :=
    acyclic_of_rank (fun m => if m.id = 0 then 5 else m.id.toNat) (by decide +kernel) hn
  exact ⟨n, hn, kind, acyclic, holds_eq_solution distinct hn acyclic _⟩

end Script

end MarkerLattice
