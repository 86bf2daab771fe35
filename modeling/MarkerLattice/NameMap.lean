/-!
Finite maps from names to values, kept in the order of the names, so that two
maps with the same entries are equal and listing one is deterministic.
-/
namespace MarkerLattice

/-- Entries under strictly increasing names. -/
structure NameMap (α : Type) where
  entries : List (String × α)
  sorted : (entries.map Prod.fst).Pairwise (· < ·)
deriving DecidableEq

namespace NameMap

variable {α : Type}

def empty : NameMap α := ⟨[], .nil⟩

instance : Inhabited (NameMap α) := ⟨empty⟩

def names (m : NameMap α) : List String := m.entries.map Prod.fst

def values (m : NameMap α) : List α := m.entries.map Prod.snd

def size (m : NameMap α) : Nat := m.entries.length

def get? (m : NameMap α) (name : String) : Option α := m.entries.lookup name

def insertEntry (name : String) (a : α) : List (String × α) → List (String × α)
  | [] => [(name, a)]
  | e :: rest =>
    if name < e.1 then (name, a) :: e :: rest
    else if name = e.1 then (name, a) :: rest
    else e :: insertEntry name a rest

theorem mem_names_insertEntry {name k : String} {a : α}
    {l : List (String × α)} (h : k ∈ (insertEntry name a l).map Prod.fst) :
    k = name ∨ k ∈ l.map Prod.fst := by
  induction l with
  | nil => simpa [insertEntry] using h
  | cons e rest ih =>
    rw [insertEntry] at h
    split at h
    · simpa using h
    · split at h
      · simp only [List.map_cons, List.mem_cons] at h ⊢
        exact h.imp_right .inr
      · simp only [List.map_cons, List.mem_cons] at h ⊢
        rcases h with h | h
        · exact .inr (.inl h)
        · exact (ih h).imp_right .inr

theorem sorted_insertEntry (name : String) (a : α) {l : List (String × α)}
    (h : (l.map Prod.fst).Pairwise (· < ·)) :
    ((insertEntry name a l).map Prod.fst).Pairwise (· < ·) := by
  induction l with
  | nil => simp [insertEntry]
  | cons e rest ih =>
    simp only [List.map_cons, List.pairwise_cons] at h
    rw [insertEntry]
    split
    next hlt =>
      simp only [List.map_cons, List.pairwise_cons, List.mem_cons]
      refine ⟨fun k hk => ?_, h⟩
      rcases hk with rfl | hk
      · exact hlt
      · exact String.lt_trans hlt (h.1 k hk)
    next hlt =>
      split
      next heq =>
        simp only [List.map_cons, List.pairwise_cons]
        exact ⟨fun k hk => heq ▸ h.1 k hk, h.2⟩
      next hne =>
        simp only [List.map_cons, List.pairwise_cons]
        refine ⟨fun k hk => ?_, ih h.2⟩
        rcases mem_names_insertEntry hk with rfl | hk
        · apply String.not_le.mp
          intro hle
          exact hne (String.le_antisymm hle (String.not_lt.mp hlt))
        · exact h.1 k hk

def insert (m : NameMap α) (name : String) (a : α) : NameMap α :=
  ⟨insertEntry name a m.entries, sorted_insertEntry name a m.sorted⟩

/-- The map of a list of entries; of two with one name the later one stays. -/
def ofList (l : List (String × α)) : NameMap α :=
  l.foldl (fun m e => m.insert e.1 e.2) empty

def modify (m : NameMap α) (name : String) (f : α → α) : NameMap α where
  entries := m.entries.map fun e => if e.1 = name then (e.1, f e.2) else e
  sorted := by
    have h : ((m.entries.map fun e => if e.1 = name then (e.1, f e.2) else e).map
        Prod.fst) = m.entries.map Prod.fst := by
      rw [List.map_map]
      apply List.map_congr_left
      intro e _
      by_cases h : e.1 = name <;> simp [h]
    rw [h]
    exact m.sorted

end NameMap

end MarkerLattice
