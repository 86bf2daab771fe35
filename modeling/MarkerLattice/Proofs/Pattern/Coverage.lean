import Mathlib
import MarkerLattice.Proofs.Pattern.Rigid

/-! The placements of an orientation around a window: a rectangle of coordinates,
each tried once. Whether it holds every placement that reaches the window depends
on where the rules lie, and not on the extent of their bounds alone. Where a corner of
the rectangle is no word of 32 bits, nothing is tried at all. -/
namespace MarkerLattice

namespace Coord

/-- Words of 32 bits can keep the coordinate. -/
def IsWord (c : Coord) : Prop := c.wrapped = c

instance (c : Coord) : Decidable c.IsWord := inferInstanceAs (Decidable (_ = _))

end Coord

namespace Placement

theorem mem_interval {lo hi x : ℤ} : x ∈ interval lo hi ↔ lo ≤ x ∧ x ≤ hi := by
  simp only [interval, List.mem_map, List.mem_range]
  constructor
  · rintro ⟨i, hi, rfl⟩
    omega
  · intro h
    exact ⟨(x - lo).toNat, by omega, by omega⟩

theorem nodup_interval (lo hi : ℤ) : (interval lo hi).Nodup := by
  apply List.nodup_range.map
  intro i j h
  simpa using h

def bases (o : Orientation) (w : Window) : List Coord :=
  (between o (w.offset - o.extent) (w.offset + w.size)).map Placement.base

def InRange (o : Orientation) (w : Window) (b : Coord) : Prop :=
  (w.offset.x - o.extent.x ≤ b.x ∧ b.x ≤ w.offset.x + w.size.x) ∧
    (w.offset.y - o.extent.y ≤ b.y ∧ b.y ≤ w.offset.y + w.size.y)

instance (o : Orientation) (w : Window) (b : Coord) : Decidable (InRange o w b) :=
  inferInstanceAs (Decidable (_ ∧ _))

/-- The corners of the rectangle are words. -/
def Fits (o : Orientation) (w : Window) : Prop :=
  (w.offset - o.extent).IsWord ∧ (w.offset + w.size).IsWord

instance (o : Orientation) (w : Window) : Decidable (Fits o w) :=
  inferInstanceAs (Decidable (_ ∧ _))

variable {o : Orientation} {w : Window} {b : Coord}

theorem around_eq_between (fits : Fits o w) :
    around o w = between o (w.offset - o.extent) (w.offset + w.size) := by
  rw [around, fits.1, fits.2]

theorem bases_eq (some : o.rules ≠ []) : bases o w =
    (interval (w.offset.y - o.extent.y) (w.offset.y + w.size.y)).flatMap fun y =>
      (interval (w.offset.x - o.extent.x) (w.offset.x + w.size.x)).map fun x => ⟨x, y⟩ := by
  rw [bases, between, if_neg (by simpa using some), List.map_flatMap]
  simp only [List.map_map, Function.comp_def, Coord.sub_x, Coord.sub_y, Coord.add_x,
    Coord.add_y]

theorem mem_bases (some : o.rules ≠ []) : b ∈ bases o w ↔ InRange o w b := by
  obtain ⟨x, y⟩ := b
  simp only [bases_eq some, List.mem_flatMap, List.mem_map, mem_interval, Coord.mk.injEq, InRange]
  constructor
  · rintro ⟨_, rows, _, columns, rfl, rfl⟩
    exact ⟨columns, rows⟩
  · rintro ⟨columns, rows⟩
    exact ⟨y, rows, x, columns, rfl, rfl⟩

theorem nodup_bases (some : o.rules ≠ []) : (bases o w).Nodup := by
  rw [bases_eq some, List.nodup_flatMap]
  refine ⟨fun y _ => (nodup_interval _ _).map fun x x' h => congrArg Coord.x h, ?_⟩
  refine (nodup_interval _ _).imp fun {y y'} ne c h h' => ne ?_
  obtain ⟨x, -, rfl⟩ := List.mem_map.mp h
  obtain ⟨x', -, same⟩ := List.mem_map.mp h'
  exact (congrArg Coord.y same).symm

theorem count_bases (some : o.rules ≠ []) (b : Coord) :
    (bases o w).count b = if InRange o w b then 1 else 0 := by
  simp only [(nodup_bases some).count, mem_bases some]

/-- Some rule of the orientation lies in the window when it stands on `b`. -/
def Reaches (o : Orientation) (w : Window) (b : Coord) : Prop :=
  ∃ r ∈ o.rules, w.contains (b + r.coord) = true

/-- Every placement that reaches the window is tried, and only once. -/
def Covers (o : Orientation) (w : Window) : Prop :=
  ∀ b, Reaches o w b → (bases o w).count b = 1

theorem covers_iff_inRange (some : o.rules ≠ []) :
    Covers o w ↔ ∀ b, Reaches o w b → InRange o w b := by
  refine forall₂_congr fun b _ => ?_
  rw [count_bases some]
  split <;> simp_all

/-- How far a rule may lie from the origin for all its placements in the window to
be tried. -/
theorem inRange_iff_of_rule {r : PlacedRule} (wide : 0 < w.size.x) (tall : 0 < w.size.y) :
    (∀ b, w.contains (b + r.coord) = true → InRange o w b) ↔
      (-1 ≤ r.coord.x ∧ r.coord.x ≤ o.extent.x) ∧ -1 ≤ r.coord.y ∧ r.coord.y ≤ o.extent.y := by
  simp only [Window.contains_iff, InRange, Coord.add_x, Coord.add_y]
  constructor
  · intro h
    -- The rule on the first cell of the window, and on the last one.
    have first := h (w.offset - r.coord) (by simp; omega)
    have last := h (w.offset + w.size - .one - r.coord) (by simp [Coord.one]; omega)
    simp only [Coord.sub_x, Coord.sub_y, Coord.add_x, Coord.add_y, Coord.one] at first last
    omega
  · intro h b hb
    omega

theorem covers_iff_rules (some : o.rules ≠ []) (wide : 0 < w.size.x) (tall : 0 < w.size.y) :
    Covers o w ↔ ∀ r ∈ o.rules,
      (-1 ≤ r.coord.x ∧ r.coord.x ≤ o.extent.x) ∧ -1 ≤ r.coord.y ∧ r.coord.y ≤ o.extent.y := by
  simp only [covers_iff_inRange some, ← inRange_iff_of_rule wide tall (w := w), Reaches]
  constructor
  · intro h r hr b hb
    exact h b ⟨r, hr, hb⟩
  · rintro h b ⟨r, hr, hb⟩
    exact h r hr b hb

theorem forall_rules_iff_low (some : o.rules ≠ []) (tight : o.Tight) :
    (∀ r ∈ o.rules, (-1 ≤ r.coord.x ∧ r.coord.x ≤ o.extent.x) ∧
        -1 ≤ r.coord.y ∧ r.coord.y ≤ o.extent.y) ↔
      (-1 ≤ o.low.x ∧ o.low.x ≤ 1) ∧ -1 ≤ o.low.y ∧ o.low.y ≤ 1 := by
  obtain ⟨⟨⟨left, hl, atLeft⟩, leftmost⟩, ⟨bottom, hb, atBottom⟩, lowest⟩ := tight.low some
  obtain ⟨⟨⟨right, hr, atRight⟩, rightmost⟩, ⟨top, ht, atTop⟩, highest⟩ := tight.high some
  have extent : o.extent.x = o.high.x - o.low.x + 1 ∧ o.extent.y = o.high.y - o.low.y + 1 :=
    ⟨rfl, rfl⟩
  constructor
  · intro h
    have := h left hl
    have := h bottom hb
    have := h right hr
    have := h top ht
    omega
  · intro h r hr
    have := leftmost ⟨r, hr, rfl⟩
    have := lowest ⟨r, hr, rfl⟩
    have := rightmost ⟨r, hr, rfl⟩
    have := highest ⟨r, hr, rfl⟩
    omega

/-- If the corners are words, the placements that are tried fill a rectangle, each once.
They leave out none that reaches the window if and only if the rules start at most one cell
off the origin, in each direction. -/
theorem covers_iff_low (some : o.rules ≠ []) (wide : 0 < w.size.x) (tall : 0 < w.size.y) :
    (Fits o w → (around o w).map Placement.base = bases o w) ∧
      (∀ b, (bases o w).count b = if InRange o w b then 1 else 0) ∧
      (Covers o w ↔ ∀ r ∈ o.rules,
        (-1 ≤ r.coord.x ∧ r.coord.x ≤ o.extent.x) ∧ -1 ≤ r.coord.y ∧ r.coord.y ≤ o.extent.y) ∧
      (o.Tight →
        (Covers o w ↔ (-1 ≤ o.low.x ∧ o.low.x ≤ 1) ∧ -1 ≤ o.low.y ∧ o.low.y ≤ 1)) := by
  have rules := covers_iff_rules some wide tall
  exact ⟨fun fits => congrArg _ (around_eq_between fits), count_bases some, rules,
    fun tight => rules.trans (forall_rules_iff_low some tight)⟩

def gapped : Orientation := .ofPattern ⟨[.fresh ⟨0, 0⟩ .ground, .fresh ⟨2, 0⟩ .ground]⟩

def oneCell : Window := ⟨.zero, .one⟩

/-- As authored no placement is missed; after half a turn one that puts the second
tile on the only cell is. -/
theorem covers_iff_low_gapped : gapped.rules ≠ [] ∧ gapped.turned.turned.rules ≠ [] ∧
    0 < oneCell.size.x ∧ 0 < oneCell.size.y ∧ Covers gapped oneCell ∧
    ¬ Covers gapped.turned.turned oneCell ∧ Reaches gapped.turned.turned oneCell ⟨2, 0⟩ ∧
    (bases gapped.turned.turned oneCell).count ⟨2, 0⟩ = 0 ∧
    ((around gapped.turned.turned oneCell).map Placement.base).count ⟨2, 0⟩ = 0 := by
  have some : gapped.rules ≠ [] := by decide
  have some' : gapped.turned.turned.rules ≠ [] := by decide
  have wide : 0 < oneCell.size.x := by decide
  have tall : 0 < oneCell.size.y := by decide
  obtain ⟨-, -, -, authored⟩ := covers_iff_low some wide tall
  obtain ⟨tried, count, -, turned⟩ := covers_iff_low some' wide tall
  have missed : (bases gapped.turned.turned oneCell).count ⟨2, 0⟩ = 0 := by
    rw [count]
    decide +kernel
  refine ⟨some, some', wide, tall, ?_, ?_, ?_, missed, ?_⟩
  · rw [authored (Orientation.tight_ofPattern _)]
    decide
  · rw [turned (Orientation.tight_turned _)]
    decide +kernel
  · unfold Reaches
    decide +kernel
  · rw [tried (by decide +kernel), missed]

end Placement

end MarkerLattice
