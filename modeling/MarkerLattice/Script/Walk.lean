import MarkerLattice.Script

/-!
Walks over a script that never meet an identifier twice on one path. They end
because every step uses up an identifier of the script.
-/
namespace MarkerLattice.Script

theorem mem_of_node? {s : Script} {id : NodeId} {n : Node} (h : s.node? id = some n) :
    n ∈ s.nodes :=
  List.mem_of_find?_eq_some h

theorem mem_of_nextAction? {s : Script} {n m : Node} (h : s.nextAction? n = some m) :
    m ∈ s.nodes := by
  simp only [nextAction?, Option.filter_eq_some_iff, Option.bind_eq_some_iff] at h
  obtain ⟨⟨l, _, hm⟩, _⟩ := h
  exact mem_of_node? hm

def unseen (s : Script) (path : List NodeId) : Nat :=
  s.nodes.countP fun n => n.id ∉ path

/-- The length that a walk standing at `n` may still have. A node from outside
the script has one step more. -/
def room (s : Script) (path : List NodeId) (n : Node) : Nat :=
  s.unseen path + if n ∈ s.nodes then 0 else 1

theorem unseen_cons_le (s : Script) (path : List NodeId) (id : NodeId) :
    s.unseen (id :: path) ≤ s.unseen path := by
  apply List.countP_mono_left
  simp_all

theorem unseen_cons_lt {s : Script} {path : List NodeId} {n : Node}
    (mem : n ∈ s.nodes) (fresh : n.id ∉ path) :
    s.unseen (n.id :: path) < s.unseen path := by
  unfold unseen
  generalize s.nodes = nodes at mem
  induction nodes with
  | nil => cases mem
  | cons m rest ih =>
    have le : rest.countP (fun k => k.id ∉ n.id :: path) ≤
        rest.countP (fun k => k.id ∉ path) := by
      apply List.countP_mono_left
      simp_all
    rcases List.mem_cons.mp mem with rfl | mem
    · rw [List.countP_cons_of_neg (by simp), List.countP_cons_of_pos (by simpa using fresh)]
      omega
    · have lt := ih mem
      by_cases hm : m.id ∈ path
      · rw [List.countP_cons_of_neg (by simp [hm]), List.countP_cons_of_neg (by simp [hm])]
        exact lt
      · rw [List.countP_cons_of_pos (a := m) (l := rest) (p := fun k => k.id ∉ path)
          (by simpa using hm), List.countP_cons]
        split <;> omega

theorem room_lt {s : Script} {path : List NodeId} {n m : Node}
    (fresh : n.id ∉ path) (mem : m ∈ s.nodes) :
    s.room (n.id :: path) m < s.room path n := by
  have le := unseen_cons_le s path n.id
  simp only [room, mem, if_true]
  split
  next h =>
    have := unseen_cons_lt h fresh
    omega
  next => omega

end MarkerLattice.Script
