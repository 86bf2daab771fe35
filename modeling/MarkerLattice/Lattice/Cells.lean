import MarkerLattice.Lattice.Coord

/-!
Dense storage over a rectangular window of the lattice, row by row. Nothing
exists outside the window: reading gives nothing and writing does nothing.
-/
namespace MarkerLattice

/-- The coordinates from `offset` up to, and without, `offset + size`. -/
structure Window where
  offset : Coord
  size : Coord
deriving DecidableEq, Repr

namespace Window

def contains (w : Window) (c : Coord) : Bool :=
  let d := c - w.offset
  0 ≤ d.x && 0 ≤ d.y && d.x < w.size.x && d.y < w.size.y

def area (w : Window) : Nat := w.size.x.toNat * w.size.y.toNat

def index? (w : Window) (c : Coord) : Option Nat :=
  let d := c - w.offset
  if w.contains c then some (w.size.x * d.y + d.x).toNat else none

def row (w : Window) (y : Nat) : List Coord :=
  (List.range w.size.x.toNat).map fun x => w.offset + ⟨x, y⟩

def coords (w : Window) : List Coord := (List.range w.size.y.toNat).flatMap w.row

theorem length_coords (w : Window) : w.coords.length = w.area := by
  have h (n : Nat) : ((List.range n).flatMap w.row).length = w.size.x.toNat * n := by
    induction n with
    | zero => simp
    | succ n ih => rw [List.range_succ, List.flatMap_append, List.length_append, ih,
        Nat.mul_succ]; simp [row]
  exact h _

end Window

structure Cells (α : Type) where
  window : Window
  values : Array α
  size_values : values.size = window.area

namespace Cells

variable {α β : Type}

def fill (w : Window) (a : α) : Cells α := ⟨w, .replicate w.area a, by simp⟩

def ofFn (w : Window) (f : Coord → α) : Cells α :=
  ⟨w, (w.coords.map f).toArray, by simp [w.length_coords]⟩

def get? (cells : Cells α) (c : Coord) : Option α :=
  (cells.window.index? c).bind fun i => cells.values[i]?

def modify (cells : Cells α) (c : Coord) (f : α → α) : Cells α :=
  match cells.window.index? c with
  | none => cells
  | some i => { cells with
      values := cells.values.modify i f
      size_values := by simpa using cells.size_values }

def set (cells : Cells α) (c : Coord) (a : α) : Cells α := cells.modify c fun _ => a

def coords (cells : Cells α) : List Coord := cells.window.coords

def map (f : α → β) (cells : Cells α) : Cells β :=
  ⟨cells.window, cells.values.map f, by simpa using cells.size_values⟩

end Cells

structure Quad (α : Type) where
  ground : α
  edgeX : α
  edgeY : α
  corner : α
deriving DecidableEq, Repr

namespace Quad

variable {α : Type}

def replicate (a : α) : Quad α := ⟨a, a, a, a⟩

def get (q : Quad α) : SubCell → α
  | .ground => q.ground
  | .edgeX => q.edgeX
  | .edgeY => q.edgeY
  | .corner => q.corner

def modify (q : Quad α) (part : SubCell) (f : α → α) : Quad α :=
  match part with
  | .ground => { q with ground := f q.ground }
  | .edgeX => { q with edgeX := f q.edgeX }
  | .edgeY => { q with edgeY := f q.edgeY }
  | .corner => { q with corner := f q.corner }

theorem get_modify (q : Quad α) (p part : SubCell) (f : α → α) :
    (q.modify part f).get p = if p = part then f (q.get p) else q.get p := by
  cases p <;> cases part <;> simp [modify, get]

/-- In the order tile, edge below, edge to the left, corner. -/
def toList (q : Quad α) : List α := SubCell.all.map q.get

end Quad

abbrev SlotGrid (α : Type) := Cells (Quad α)

namespace SlotGrid

variable {α : Type}

def slot? (g : SlotGrid α) (s : Slot) : Option α :=
  (Cells.get? g s.coord).map fun q => q.get s.part

def modifySlot (g : SlotGrid α) (s : Slot) (f : α → α) : SlotGrid α :=
  Cells.modify g s.coord fun q => q.modify s.part f

end SlotGrid

/-- The slots that an insertion of the current pass has taken. -/
abbrev Occupancy := SlotGrid Bool

namespace Occupancy

def none (w : Window) : Occupancy := Cells.fill w (.replicate false)

/-- Slots outside the window are never occupied. -/
def isOccupied (o : Occupancy) (s : Slot) : Bool := (SlotGrid.slot? o s).getD false

def mark (o : Occupancy) (s : Slot) : Occupancy := SlotGrid.modifySlot o s fun _ => true

end Occupancy

end MarkerLattice
