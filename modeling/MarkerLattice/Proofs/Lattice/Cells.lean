import Mathlib
import MarkerLattice.Proofs.Lattice.Window

/-! Cells are determined by what their coordinates read, and a write is seen at
its own coordinate or slot only. Proofs elsewhere cite these laws and do not
open the array behind them. -/
namespace MarkerLattice

namespace Cells

variable {α β : Type}

@[simp] theorem window_fill (w : Window) (a : α) : (fill w a).window = w := rfl
@[simp] theorem window_ofFn (w : Window) (f : Coord → α) : (ofFn w f).window = w := rfl
@[simp] theorem window_map (f : α → β) (cells : Cells α) :
    (cells.map f).window = cells.window := rfl

@[simp] theorem window_modify (cells : Cells α) (c : Coord) (f : α → α) :
    (cells.modify c f).window = cells.window := by
  unfold modify
  split <;> rfl

@[simp] theorem window_set (cells : Cells α) (c : Coord) (a : α) :
    (cells.set c a).window = cells.window :=
  window_modify cells c _

theorem get?_eq_none_of_not_contains {cells : Cells α} {c : Coord}
    (h : cells.window.contains c = false) : cells.get? c = none := by
  rw [get?, (Window.index?_eq_none_iff _ _).mpr h]
  rfl

theorem get?_eq_of_index? {cells : Cells α} {c : Coord} {i : Nat}
    (h : cells.window.index? c = some i) : cells.get? c = cells.values[i]? := by
  simp [get?, h]

@[simp] theorem isSome_get? (cells : Cells α) (c : Coord) :
    (cells.get? c).isSome = cells.window.contains c := by
  cases hi : cells.window.index? c with
  | none =>
    have hc := (Window.index?_eq_none_iff _ _).mp hi
    simp [get?_eq_none_of_not_contains hc, hc]
  | some i =>
    rw [get?_eq_of_index? hi, Window.contains_of_index? hi]
    have := Window.index?_lt_area hi
    simp [cells.size_values, this]

theorem exists_get? {cells : Cells α} {c : Coord} (h : cells.window.contains c = true) :
    ∃ a, cells.get? c = some a :=
  Option.isSome_iff_exists.mp ((isSome_get? cells c).trans h)

theorem contains_of_get? {cells : Cells α} {c : Coord} {a : α} (h : cells.get? c = some a) :
    cells.window.contains c = true := by
  rw [← isSome_get?, h]
  rfl

theorem ext_get? {a b : Cells α} (hw : a.window = b.window) (h : ∀ c, a.get? c = b.get? c) :
    a = b := by
  have hv : a.values = b.values := by
    apply Array.ext_getElem?
    intro i
    by_cases hi : i < a.window.area
    · obtain ⟨c, hc⟩ := Window.exists_index? hi
      rw [← get?_eq_of_index? hc, ← get?_eq_of_index? (hw ▸ hc)]
      exact h c
    · have ha := a.size_values
      have hb := b.size_values
      rw [← hw] at hb
      simp [hi, ha, hb]
  cases a
  cases b
  simp_all

@[simp] theorem get?_fill (w : Window) (a : α) (c : Coord) :
    (fill w a).get? c = if w.contains c then some a else none := by
  rw [get?, window_fill]
  cases hi : w.index? c with
  | none => simp [(Window.index?_eq_none_iff _ _).mp hi]
  | some i => simp [fill, Window.contains_of_index? hi, Window.index?_lt_area hi]

@[simp] theorem get?_ofFn (w : Window) (f : Coord → α) (c : Coord) :
    (ofFn w f).get? c = if w.contains c then some (f c) else none := by
  rw [get?, window_ofFn]
  cases hi : w.index? c with
  | none => simp [(Window.index?_eq_none_iff _ _).mp hi]
  | some i => simp [ofFn, Window.contains_of_index? hi, (w.getElem?_coords c i).mpr hi]

@[simp] theorem get?_map (f : α → β) (cells : Cells α) (c : Coord) :
    (cells.map f).get? c = (cells.get? c).map f := by
  rw [get?, get?, window_map]
  cases cells.window.index? c with
  | none => rfl
  | some i => simp [map]

theorem get?_modify (cells : Cells α) (c d : Coord) (f : α → α) :
    (cells.modify c f).get? d = if d = c then (cells.get? d).map f else cells.get? d := by
  rw [get?, get?, window_modify]
  cases hd : cells.window.index? d with
  | none => simp
  | some j =>
    cases hc : cells.window.index? c with
    | none =>
      have hne : d ≠ c := by
        rintro rfl
        simp [hd] at hc
      rw [if_neg hne, modify, hc]
    | some i =>
      have hij : i = j ↔ d = c := by
        constructor
        · rintro rfl
          exact Window.index?_injective hd hc
        · rintro rfl
          exact Option.some.inj (hc.symm.trans hd)
      simp only [modify, hc, Option.bind_some, Array.getElem?_modify, hij]

theorem get?_set (cells : Cells α) (c d : Coord) (a : α) :
    (cells.set c a).get? d =
      if d = c ∧ cells.window.contains d = true then some a else cells.get? d := by
  rw [set, get?_modify]
  by_cases h : d = c
  · cases hw : cells.window.contains d with
    | false => simp [h, get?_eq_none_of_not_contains (h ▸ hw)]
    | true =>
      obtain ⟨b, hb⟩ := exists_get? hw
      simp [h, h ▸ hb]
  · simp [h]

end Cells

namespace SlotGrid

variable {α : Type}

@[simp] theorem window_modifySlot (g : SlotGrid α) (s : Slot) (f : α → α) :
    Cells.window (modifySlot g s f) = Cells.window g :=
  Cells.window_modify g _ _

theorem slot?_modifySlot (g : SlotGrid α) (s t : Slot) (f : α → α) :
    slot? (modifySlot g s f) t = if t = s then (slot? g t).map f else slot? g t := by
  unfold slot? modifySlot
  rw [Cells.get?_modify]
  by_cases hc : t.coord = s.coord
  · rw [if_pos hc, Option.map_map]
    cases Cells.get? g t.coord with
    | none => simp
    | some q =>
      have hts : t = s ↔ t.part = s.part := by
        cases t
        cases s
        simp_all
      simp only [Option.map_some, Function.comp_apply, Quad.get_modify, hts]
      split <;> rfl
  · rw [if_neg hc, if_neg fun h => hc (congrArg Slot.coord h)]

@[simp] theorem isSome_slot? (g : SlotGrid α) (s : Slot) :
    (slot? g s).isSome = (Cells.window g).contains s.coord := by
  simp [slot?]

theorem slot?_eq_none_of_not_contains {g : SlotGrid α} {s : Slot}
    (h : (Cells.window g).contains s.coord = false) : slot? g s = none := by
  rw [slot?, Cells.get?_eq_none_of_not_contains h]
  rfl

theorem ext_slot? {a b : SlotGrid α} (hw : Cells.window a = Cells.window b)
    (h : ∀ s, slot? a s = slot? b s) : a = b := by
  apply Cells.ext_get? hw
  intro c
  have hp (part : SubCell) := h ⟨c, part⟩
  simp only [slot?] at hp
  cases ha : Cells.get? a c <;> cases hb : Cells.get? b c
  · rfl
  · simpa [ha, hb] using hp .ground
  · simpa [ha, hb] using hp .ground
  · rename_i p q
    simp only [ha, hb, Option.map_some, Option.some.injEq] at hp
    cases p
    cases q
    exact congrArg some (by
      rw [Quad.mk.injEq]
      exact ⟨hp .ground, hp .edgeX, hp .edgeY, hp .corner⟩)

theorem modifySlot_comm (g : SlotGrid α) {s t : Slot} (h : s ≠ t) (f f' : α → α) :
    modifySlot (modifySlot g s f) t f' = modifySlot (modifySlot g t f') s f := by
  apply ext_slot?
  · simp
  · intro u
    simp only [slot?_modifySlot]
    by_cases hs : u = s
    · simp [hs, h]
    · simp [hs]

end SlotGrid

namespace Occupancy

@[simp] theorem window_mark (o : Occupancy) (s : Slot) :
    Cells.window (mark o s) = Cells.window o :=
  SlotGrid.window_modifySlot o s _

@[simp] theorem isOccupied_none (w : Window) (s : Slot) :
    isOccupied (none w) s = false := by
  simp only [isOccupied, none, SlotGrid.slot?, Cells.get?_fill]
  split
  · cases s.part <;> simp [Quad.replicate, Quad.get]
  · rfl

theorem isOccupied_mark (o : Occupancy) (s t : Slot) :
    isOccupied (mark o s) t =
      (isOccupied o t || decide (t = s) && (Cells.window o).contains t.coord) := by
  simp only [isOccupied, mark, SlotGrid.slot?_modifySlot, ← SlotGrid.isSome_slot?]
  by_cases h : t = s
  · cases SlotGrid.slot? o t <;> simp [h]
  · simp [h]

theorem mark_comm (o : Occupancy) (s t : Slot) : mark (mark o s) t = mark (mark o t) s := by
  by_cases h : s = t
  · rw [h]
  · exact SlotGrid.modifySlot_comm o h _ _

end Occupancy

end MarkerLattice
