import Mathlib
import MarkerLattice.Pattern
import MarkerLattice.Proofs.Lattice.Window

/-! Windows in words of 32 bits. If the area and the corners of a window can be written as
such words, arithmetic that wraps around decides which coordinates it contains, numbers and
lists them as whole numbers do. No sum that matters leaves the words, and a difference that
wraps around still falls outside. -/
namespace MarkerLattice

structure WordWindow where
  offset : Offset
  size : Offset

namespace WordWindow

def toWindow (w : WordWindow) : Window := ⟨w.offset.toCoord, w.size.toCoord⟩

def contains (w : WordWindow) (c : Offset) : Bool :=
  0 ≤ c.x - w.offset.x && 0 ≤ c.y - w.offset.y &&
    c.x - w.offset.x < w.size.x && c.y - w.offset.y < w.size.y

def index? (w : WordWindow) (c : Offset) : Option Int32 :=
  if w.contains c then some (w.size.x * (c.y - w.offset.y) + (c.x - w.offset.x)) else none

def coords (w : WordWindow) : List Offset :=
  (List.range w.size.y.toInt.toNat).flatMap fun y =>
    (List.range w.size.x.toInt.toNat).map fun x =>
      ⟨w.offset.x + Int32.ofNat x, w.offset.y + Int32.ofNat y⟩

/-- The area is a word, and so are the last column and the last row. -/
structure Fits (w : WordWindow) : Prop where
  area : w.toWindow.area < 2 ^ 31
  right : w.offset.x.toInt + w.size.x.toInt ≤ 2 ^ 31
  top : w.offset.y.toInt + w.size.y.toInt ≤ 2 ^ 31

section Axis

variable {a offset size : Int32}

/-- A difference that wraps around is too large before and negative after it, or the other
way round. -/
theorem sub_within_iff (fits : offset.toInt + size.toInt ≤ 2 ^ 31) :
    (0 ≤ a - offset ∧ a - offset < size) ↔
      0 ≤ a.toInt - offset.toInt ∧ a.toInt - offset.toInt < size.toInt := by
  have ha := a.le_toInt
  have ha' := a.toInt_lt
  have ho := offset.le_toInt
  have ho' := offset.toInt_lt
  have hs := size.toInt_lt
  rw [Int32.le_iff_toInt_le, Int32.lt_iff_toInt_lt, Int32.toInt_sub, Int32.toInt_zero,
    Int.bmod_eq_emod]
  split <;> omega

theorem toInt_sub_of_within (size : Int32) (h : 0 ≤ a.toInt - offset.toInt)
    (h' : a.toInt - offset.toInt < size.toInt) :
    (a - offset).toInt = a.toInt - offset.toInt := by
  have hs := size.toInt_lt
  rw [Int32.toInt_sub, Int.bmod_eq_of_le_mul_two]
  · omega
  · omega

theorem toInt_add_ofNat (fits : offset.toInt + size.toInt ≤ 2 ^ 31) {k : ℕ}
    (h : k < size.toInt.toNat) : (offset + Int32.ofNat k).toInt = offset.toInt + k := by
  have ho := offset.le_toInt
  rw [Int32.toInt_add, Int32.toInt_ofNat', Int32.size, Int.add_bmod_bmod,
    Int.bmod_eq_of_le_mul_two]
  · omega
  · omega

end Axis

variable {w : WordWindow}

theorem contains_iff (c : Offset) : w.contains c = true ↔
    (0 ≤ c.x - w.offset.x ∧ c.x - w.offset.x < w.size.x) ∧
      0 ≤ c.y - w.offset.y ∧ c.y - w.offset.y < w.size.y := by
  simp only [contains, Bool.and_eq_true, decide_eq_true_eq, and_assoc, and_left_comm]

theorem contains_eq (fits : w.Fits) (c : Offset) :
    w.contains c = w.toWindow.contains c.toCoord := by
  have column := sub_within_iff (a := c.x) fits.right
  have row := sub_within_iff (a := c.y) fits.top
  rw [Bool.eq_iff_iff, contains_iff, Window.contains_iff, column, row]
  simp only [toWindow, Offset.toCoord]
  omega

theorem index?_eq (fits : w.Fits) (c : Offset) :
    (w.index? c).map Int32.toInt = (w.toWindow.index? c.toCoord).map Nat.cast := by
  cases inside : w.toWindow.contains c.toCoord with
  | false =>
    rw [(Window.index?_eq_none_iff _ _).mpr inside, index?, contains_eq fits, inside]
    rfl
  | true =>
    obtain ⟨x, y, hx, hy, place, number⟩ := Window.exists_of_contains inside
    have below := (Window.index?_lt_area number).trans fits.area
    have column : (c.x - w.offset.x).toInt = x := by
      have here : c.x.toInt = w.offset.x.toInt + x := congrArg Coord.x place
      have within : x < w.size.x.toInt.toNat := hx
      rw [toInt_sub_of_within w.size.x] <;> omega
    have row : (c.y - w.offset.y).toInt = y := by
      have here : c.y.toInt = w.offset.y.toInt + y := congrArg Coord.y place
      have within : y < w.size.y.toInt.toNat := hy
      rw [toInt_sub_of_within w.size.y] <;> omega
    have width : w.size.x.toInt = w.toWindow.size.x.toNat := by
      have within : x < w.size.x.toInt.toNat := hx
      change w.size.x.toInt = (w.size.x.toInt.toNat : ℤ)
      omega
    rw [number, index?, contains_eq fits, inside, if_pos rfl, Option.map_some, Option.map_some,
      Int32.toInt_add, Int32.toInt_mul, Int.bmod_add_bmod, column, row, width,
      Int.bmod_eq_of_le_mul_two]
    · push_cast
      rfl
    · have := Int.natCast_nonneg (w.toWindow.size.x.toNat * y + x)
      push_cast at this ⊢
      omega
    · have : ((w.toWindow.size.x.toNat * y + x : ℕ) : ℤ) < 2 ^ 31 := by exact_mod_cast below
      push_cast at this ⊢
      omega

theorem coords_eq (fits : w.Fits) : w.coords.map Offset.toCoord = w.toWindow.coords := by
  rw [coords, Window.coords, List.map_flatMap]
  refine List.flatMap_congr fun y hy => ?_
  rw [Window.row, List.map_map]
  refine List.map_congr_left fun x hx => ?_
  have column := toInt_add_ofNat fits.right (List.mem_range.mp hx)
  have row := toInt_add_ofNat fits.top (List.mem_range.mp hy)
  exact Coord.ext column row

end WordWindow

end MarkerLattice
