import Mathlib
import MarkerLattice.Script

/-! Lists whose members are told apart by keys. The first member with a key is the only
one. -/
namespace MarkerLattice

variable {α β : Type} [DecidableEq β] {key : α → β} {l : List α}

theorem find?_key (distinct : (l.map key).Nodup) {a : α} (mem : a ∈ l) :
    l.find? (fun b => key b = key a) = some a := by
  obtain ⟨b, found⟩ : ∃ b, l.find? (fun b => key b = key a) = some b :=
    Option.isSome_iff_exists.mp (List.find?_isSome.mpr ⟨a, mem, by simp⟩)
  have same : key b = key a := by simpa using List.find?_some found
  rw [found, List.inj_on_of_nodup_map distinct (List.mem_of_find?_eq_some found) mem same]

theorem find?_key_eq_some_iff (distinct : (l.map key).Nodup) {k : β} {a : α} :
    l.find? (fun b => key b = k) = some a ↔ a ∈ l ∧ key a = k := by
  constructor
  · intro found
    exact ⟨List.mem_of_find?_eq_some found, by simpa using List.find?_some found⟩
  · rintro ⟨mem, rfl⟩
    exact find?_key distinct mem

theorem modifyFirst_key (distinct : (l.map key).Nodup) (k : β) (f : α → α) :
    Script.modifyFirst (fun a => key a = k) f l = l.map fun a => if key a = k then f a else a := by
  induction l with
  | nil => rfl
  | cons a rest ih =>
    rw [List.map_cons, List.nodup_cons] at distinct
    by_cases here : key a = k
    · have absent : ∀ b ∈ rest, key b ≠ k := by
        intro b mem same
        exact distinct.1 (here ▸ same ▸ List.mem_map_of_mem mem)
      have kept : (rest.map fun b => if key b = k then f b else b) = rest := by
        rw [List.map_congr_left fun b mem => if_neg (absent b mem), List.map_id']
      simp [Script.modifyFirst, here, kept]
    · simp [Script.modifyFirst, here, ih distinct.2]

theorem eraseP_key (distinct : (l.map key).Nodup) (k : β) :
    l.eraseP (fun a => key a = k) = l.filter fun a => key a ≠ k := by
  induction l with
  | nil => rfl
  | cons a rest ih =>
    rw [List.map_cons, List.nodup_cons] at distinct
    by_cases here : key a = k
    · have kept : rest.filter (fun b => key b ≠ k) = rest := by
        apply List.filter_eq_self.mpr
        intro b mem
        have other : key b ≠ k := fun same => distinct.1 (here ▸ same ▸ List.mem_map_of_mem mem)
        simpa using other
      simpa [here] using kept.symm
    · simp [here, ih distinct.2]

end MarkerLattice
