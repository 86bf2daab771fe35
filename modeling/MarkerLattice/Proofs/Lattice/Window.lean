import Mathlib
import MarkerLattice.Lattice.Cells

/-! A window lists each of its coordinates once, row by row, and the index of a
coordinate is its place in that list. -/
namespace MarkerLattice

namespace Coord

@[ext] theorem ext {a b : Coord} (hx : a.x = b.x) (hy : a.y = b.y) : a = b := by
  cases a
  cases b
  simp_all

theorem add_right_injective (base : Coord) {a b : Coord} (h : base + a = base + b) :
    a = b := by
  have hx := congrArg Coord.x h
  have hy := congrArg Coord.y h
  simp only [add_x, add_y] at hx hy
  ext <;> omega

def RowMajor (a b : Coord) : Prop := a.y < b.y ∨ a.y = b.y ∧ a.x < b.x

theorem RowMajor.ne {a b : Coord} (h : RowMajor a b) : a ≠ b := by
  rintro rfl
  rcases h with h | h <;> omega

theorem RowMajor.asymm {a b : Coord} (h : RowMajor a b) : ¬ RowMajor b a := by
  unfold RowMajor at *
  omega

theorem RowMajor.trans {a b c : Coord} (hab : RowMajor a b) (hbc : RowMajor b c) :
    RowMajor a c := by
  unfold RowMajor at *
  omega

end Coord

namespace Window

theorem contains_iff (w : Window) (c : Coord) :
    w.contains c = true ↔
      w.offset.x ≤ c.x ∧ c.x < w.offset.x + w.size.x ∧
        w.offset.y ≤ c.y ∧ c.y < w.offset.y + w.size.y := by
  simp only [contains, Coord.sub_x, Coord.sub_y, Bool.and_eq_true, decide_eq_true_eq]
  omega

theorem exists_of_contains {w : Window} {c : Coord} (h : w.contains c = true) :
    ∃ x y : Nat, x < w.size.x.toNat ∧ y < w.size.y.toNat ∧ c = w.offset + ⟨x, y⟩ ∧
      w.index? c = some (w.size.x.toNat * y + x) := by
  have hb := (contains_iff w c).mp h
  obtain ⟨x, hx⟩ := Int.eq_ofNat_of_zero_le (show 0 ≤ c.x - w.offset.x by omega)
  obtain ⟨y, hy⟩ := Int.eq_ofNat_of_zero_le (show 0 ≤ c.y - w.offset.y by omega)
  obtain ⟨k, hk⟩ := Int.eq_ofNat_of_zero_le (show 0 ≤ w.size.x by omega)
  refine ⟨x, y, by omega, by omega, ?_, ?_⟩
  · ext <;> simp <;> omega
  · simp only [index?, h, if_true, Coord.sub_x, Coord.sub_y, hx, hy, hk, Int.toNat_natCast]
    congr 1

theorem index?_add (w : Window) {x y : Nat} (hx : x < w.size.x.toNat)
    (hy : y < w.size.y.toNat) :
    w.index? (w.offset + ⟨x, y⟩) = some (w.size.x.toNat * y + x) := by
  have h : w.contains (w.offset + ⟨x, y⟩) = true := by
    rw [contains_iff]
    simp only [Coord.add_x, Coord.add_y]
    omega
  obtain ⟨x', y', -, -, hc, hi⟩ := exists_of_contains h
  have := Coord.add_right_injective _ hc
  simp only [Coord.mk.injEq, Nat.cast_inj] at this
  rw [hi, this.1, this.2]

theorem contains_of_index? {w : Window} {c : Coord} {i : Nat} (h : w.index? c = some i) :
    w.contains c = true := by
  by_contra hn
  simp [index?, hn] at h

@[simp] theorem index?_eq_none_iff (w : Window) (c : Coord) :
    w.index? c = none ↔ w.contains c = false := by
  by_cases h : w.contains c = true <;> simp [index?, h]

theorem index?_lt_area {w : Window} {c : Coord} {i : Nat} (h : w.index? c = some i) :
    i < w.area := by
  obtain ⟨x, y, hx, hy, -, hi⟩ := exists_of_contains (contains_of_index? h)
  rw [hi, Option.some.injEq] at h
  subst h
  calc w.size.x.toNat * y + x < w.size.x.toNat * y + w.size.x.toNat := by omega
    _ = w.size.x.toNat * (y + 1) := by ring
    _ ≤ w.area := Nat.mul_le_mul_left _ hy

theorem index?_injective {w : Window} {c d : Coord} {i : Nat} (hc : w.index? c = some i)
    (hd : w.index? d = some i) : c = d := by
  obtain ⟨x, y, hx, -, rfl, hi⟩ := exists_of_contains (contains_of_index? hc)
  obtain ⟨x', y', hx', -, rfl, hi'⟩ := exists_of_contains (contains_of_index? hd)
  rw [hi, Option.some.injEq] at hc
  rw [hi', Option.some.injEq] at hd
  have pos : 0 < w.size.x.toNat := by omega
  have hdiv := congrArg (· / w.size.x.toNat) (hc.trans hd.symm)
  have hmod := congrArg (· % w.size.x.toNat) (hc.trans hd.symm)
  simp only [Nat.mul_add_div pos, Nat.mul_add_mod, Nat.div_eq_of_lt hx, Nat.div_eq_of_lt hx',
    Nat.mod_eq_of_lt hx, Nat.mod_eq_of_lt hx'] at hdiv hmod
  rw [hmod, show y = y' by omega]

theorem exists_index? {w : Window} {i : Nat} (h : i < w.area) :
    ∃ c, w.index? c = some i := by
  have pos : 0 < w.size.x.toNat := by
    apply Nat.pos_of_ne_zero
    intro h0
    simp [area, h0] at h
  refine ⟨w.offset + ⟨(i % w.size.x.toNat : Nat), (i / w.size.x.toNat : Nat)⟩, ?_⟩
  rw [index?_add w (Nat.mod_lt _ pos) (Nat.div_lt_of_lt_mul h), Nat.div_add_mod]

@[simp] theorem length_row (w : Window) (y : Nat) : (w.row y).length = w.size.x.toNat := by
  simp [row]

private theorem getElem?_rows (w : Window) {n x y : Nat} (hx : x < w.size.x.toNat)
    (hy : y < n) :
    ((List.range n).flatMap w.row)[w.size.x.toNat * y + x]? = some (w.offset + ⟨x, y⟩) := by
  have length_rows (m : Nat) :
      ((List.range m).flatMap w.row).length = w.size.x.toNat * m := by
    induction m with
    | zero => simp
    | succ m ih => simp [List.range_succ, ih, Nat.mul_succ]
  induction n with
  | zero => omega
  | succ n ih =>
    rw [List.range_succ, List.flatMap_append]
    rcases Nat.lt_succ_iff_lt_or_eq.mp hy with hlt | rfl
    · have hle : w.size.x.toNat * (y + 1) ≤ w.size.x.toNat * n := Nat.mul_le_mul_left _ hlt
      rw [List.getElem?_append_left (by rw [length_rows]; rw [Nat.mul_succ] at hle; omega)]
      exact ih hlt
    · rw [List.getElem?_append_right (by rw [length_rows]; omega), length_rows]
      simp [row, hx]

/-- The index of a coordinate is its place in the list of all coordinates. -/
theorem getElem?_coords (w : Window) (c : Coord) (i : Nat) :
    w.coords[i]? = some c ↔ w.index? c = some i := by
  have back {d : Coord} {j : Nat} (h : w.index? d = some j) : w.coords[j]? = some d := by
    obtain ⟨x, y, hx, hy, rfl, hi⟩ := exists_of_contains (contains_of_index? h)
    rw [hi, Option.some.injEq] at h
    rw [← h]
    exact getElem?_rows w hx hy
  constructor
  · intro h
    obtain ⟨hi, -⟩ := List.getElem?_eq_some_iff.mp h
    obtain ⟨d, hd⟩ := exists_index? (w.length_coords ▸ hi)
    rw [back hd, Option.some.injEq] at h
    rwa [← h]
  · exact back

@[simp] theorem mem_coords (w : Window) (c : Coord) : c ∈ w.coords ↔ w.contains c = true := by
  rw [List.mem_iff_getElem?]
  simp only [getElem?_coords]
  constructor
  · rintro ⟨i, h⟩
    exact contains_of_index? h
  · intro h
    obtain ⟨x, y, -, -, -, hi⟩ := exists_of_contains h
    exact ⟨_, hi⟩

theorem pairwise_coords (w : Window) : w.coords.Pairwise Coord.RowMajor := by
  unfold coords
  rw [List.pairwise_flatMap]
  constructor
  · intro y _
    rw [row, List.pairwise_map]
    refine List.pairwise_lt_range.imp fun h => .inr ?_
    simpa using h
  · refine List.pairwise_lt_range.imp fun {y y'} h => ?_
    intro a ha b hb
    simp only [row, List.mem_map] at ha hb
    obtain ⟨x, -, rfl⟩ := ha
    obtain ⟨x', -, rfl⟩ := hb
    left
    simpa using h

end Window

end MarkerLattice
