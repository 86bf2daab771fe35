import Mathlib
import MarkerLattice.Proofs.Lattice.Extent
import MarkerLattice.Proofs.Lattice.Scene

/-! Flattening as a normal form. Building a scene and listing it sorts markers by
slot and drops repetitions; the margin of the window leaves no trace, and a list
that was made so is kept as it is. -/
namespace MarkerLattice

namespace SubCell

def rank : SubCell → Nat
  | ground => 0
  | corner => 1
  | edgeX => 2
  | edgeY => 3

def listed : List SubCell := [ground, corner, edgeX, edgeY]

theorem pairwise_listed : listed.Pairwise fun a b => a.rank < b.rank := by decide

theorem mem_listed (part : SubCell) : part ∈ listed := by cases part <;> decide

end SubCell

namespace Slot

def Before (s t : Slot) : Prop :=
  s.coord.RowMajor t.coord ∨ s.coord = t.coord ∧ s.part.rank < t.part.rank

theorem Before.asymm {s t : Slot} (h : s.Before t) : ¬ t.Before s := by
  rintro (back | ⟨same, back⟩)
  · rcases h with forth | ⟨same, -⟩
    · exact forth.asymm back
    · exact back.ne same.symm
  · rcases h with forth | ⟨-, forth⟩
    · exact forth.ne same.symm
    · omega

theorem Before.ne {s t : Slot} (h : s.Before t) : s ≠ t := by
  rintro rfl
  exact h.asymm h

end Slot

def Window.slots (w : Window) : List Slot :=
  w.coords.flatMap fun c => SubCell.listed.map fun part => ⟨c, part⟩

theorem Window.mem_slots {w : Window} {s : Slot} :
    s ∈ w.slots ↔ w.contains s.coord = true := by
  obtain ⟨c, part⟩ := s
  simp [slots, SubCell.mem_listed]

theorem Window.pairwise_slots (w : Window) : w.slots.Pairwise Slot.Before := by
  rw [slots, List.pairwise_flatMap]
  constructor
  · intro c _
    rw [List.pairwise_map]
    exact SubCell.pairwise_listed.imp fun lt => .inr ⟨rfl, lt⟩
  · refine w.pairwise_coords.imp fun {c d} before => ?_
    simp only [List.forall_mem_map]
    exact fun _ _ _ _ => .inl before

theorem Cells.map_some_values {α : Type} (cells : Cells α) :
    cells.values.toList.map some = cells.coords.map cells.get? := by
  apply List.ext_getElem?
  intro i
  simp only [List.getElem?_map, Array.getElem?_toList, coords]
  by_cases hi : i < cells.window.area
  · obtain ⟨c, hc⟩ := Window.exists_index? hi
    have value : i < cells.values.size := cells.size_values ▸ hi
    rw [(cells.window.getElem?_coords c i).mpr hc, Option.map_some, get?_eq_of_index? hc,
      Array.getElem?_eq_getElem value]
    rfl
  · have value : cells.values.size ≤ i := by rw [cells.size_values]; omega
    have coord : cells.window.coords.length ≤ i := by rw [Window.length_coords]; omega
    rw [Array.getElem?_eq_none value, List.getElem?_eq_none coord]
    rfl

namespace Scene

theorem listCell_eq (q : Quad MarkerList) : listCell q = SubCell.listed.flatMap q.get := by
  simp [listCell, SubCell.listed, Quad.get]

theorem flatten_eq (s : Scene) : s.flatten = renumber (s.window.slots.flatMap s.markers) := by
  have cell (c : Coord) : ((s.slots.get? c).elim [] listCell) =
      SubCell.listed.flatMap fun part => s.markers ⟨c, part⟩ := by
    simp only [markers, SlotGrid.slot?]
    cases s.slots.get? c with
    | none => rfl
    | some q => exact listCell_eq q
  have cells : s.slots.values.toList.flatMap listCell =
      (s.slots.values.toList.map some).flatMap fun o => o.elim [] listCell := by
    rw [List.flatMap_map]
    rfl
  rw [flatten, cells, Cells.map_some_values, List.flatMap_map]
  simp only [cell, Window.slots, List.flatMap_assoc, List.flatMap_map]
  rfl

theorem window_foldl_add (s : Scene) (ms : List Marker) :
    (ms.foldl (fun s m => s.add (s.slotOf m.location) m) s).window = s.window := by
  induction ms generalizing s with
  | nil => rfl
  | cons m rest ih => exact (ih _).trans (s.window_modifySlot _ _)

theorem markers_foldl_add (s : Scene) (ms : List Marker) {slot : Slot}
    (inside : s.window.contains slot.coord = true) :
    (ms.foldl (fun s m => s.add (s.slotOf m.location) m) s).markers slot =
      (ms.filter fun m => s.slotOf m.location = slot).foldl MarkerList.add (s.markers slot) := by
  induction ms generalizing s with
  | nil => rfl
  | cons m rest ih =>
    have window : (s.add (s.slotOf m.location) m).window = s.window := s.window_modifySlot _ _
    have head : (s.add (s.slotOf m.location) m).markers slot =
        if slot = s.slotOf m.location then (s.markers slot).add m else s.markers slot := by
      rw [add, markers_modifySlot]
      simp only [inside, and_true]
    rw [List.foldl_cons, ih _ (by rwa [window]), head, List.filter_cons]
    by_cases own : slot = s.slotOf m.location
    · rw [if_pos own, if_pos (by simp [own]), List.foldl_cons]
      rfl
    · rw [if_neg own, if_neg (by simpa using Ne.symm own)]
      rfl

end Scene

/-! Markers with their places in a list. -/

abbrev Entry := Marker × Nat

namespace Entry

variable {l : List Entry} {e n : Entry}

def slot (cell : Vec2 Binary32) (e : Entry) : Slot := .ofLocation cell e.1.location

/-- Two entries that a slot can hold one after the other. -/
def Unlike (n e : Entry) : Prop := n.1.isSame e.1 = false

instance : DecidableRel Unlike := fun n e => inferInstanceAs (Decidable (n.1.isSame e.1 = false))

/-- The entries without the repetitions of earlier ones. -/
def kept (l : List Entry) : List Entry := (l.reverse.pwFilter fun e n => Unlike n e).reverse

theorem kept_concat_of_unlike (h : ∀ n ∈ kept l, Unlike n e) :
    kept (l ++ [e]) = kept l ++ [e] := by
  rw [kept, List.reverse_append, List.reverse_singleton, List.singleton_append,
    List.pwFilter_cons_of_pos (by simpa [kept] using h), List.reverse_cons]
  rfl

theorem kept_concat_of_like (h : ¬ ∀ n ∈ kept l, Unlike n e) : kept (l ++ [e]) = kept l := by
  rw [kept, List.reverse_append, List.reverse_singleton, List.singleton_append,
    List.pwFilter_cons_of_neg (by simpa [kept] using h)]
  rfl

theorem map_fst_kept (l : List Entry) :
    (kept l).map Prod.fst = (l.map Prod.fst).foldl MarkerList.add [] := by
  induction l using List.reverseRecOn with
  | nil => rfl
  | append_singleton l e ih =>
    rw [List.map_append, List.foldl_append, ← ih]
    change _ = MarkerList.add ((kept l).map Prod.fst) e.1
    by_cases unlike : ∀ n ∈ kept l, Unlike n e
    · rw [kept_concat_of_unlike unlike, MarkerList.add, if_neg (by simpa [Unlike] using unlike)]
      simp
    · rw [kept_concat_of_like unlike, MarkerList.add, if_pos (by simpa [Unlike] using unlike)]

theorem kept_sublist (l : List Entry) : (kept l).Sublist l := by
  have sublist := List.pwFilter_sublist (R := fun e n => Unlike n e) l.reverse
  simpa [kept] using sublist.reverse

theorem pairwise_kept (l : List Entry) : (kept l).Pairwise Unlike :=
  List.pairwise_reverse.mpr (List.pairwise_pwFilter l.reverse)

theorem kept_eq_self (h : l.Pairwise Unlike) : kept l = l := by
  rw [kept, List.pwFilter_eq_self.mpr (List.pairwise_reverse.mpr h), List.reverse_reverse]

theorem exists_kept (increasing : l.Pairwise fun n e => n.2 < e.2) (he : e ∈ l) :
    e ∈ kept l ∨ ∃ n ∈ kept l, n.2 < e.2 ∧ n.1.isSame e.1 = true := by
  induction l using List.reverseRecOn with
  | nil => cases he
  | append_singleton l last ih =>
    obtain ⟨before, -, below⟩ := List.pairwise_append.mp increasing
    by_cases unlike : ∀ n ∈ kept l, Unlike n last
    · rw [kept_concat_of_unlike unlike]
      rcases List.mem_append.mp he with old | new
      · rcases ih before old with mem | ⟨n, hn, earlier⟩
        · exact .inl (List.mem_append_left _ mem)
        · exact .inr ⟨n, List.mem_append_left _ hn, earlier⟩
      · exact .inl (List.mem_append_right _ new)
    · rw [kept_concat_of_like unlike]
      rcases List.mem_append.mp he with old | new
      · exact ih before old
      · obtain rfl := List.mem_singleton.mp new
        obtain ⟨n, hn, like⟩ : ∃ n ∈ kept l, n.1.isSame e.1 = true := by
          simpa [Unlike] using unlike
        exact .inr ⟨n, hn, below n ((kept_sublist l).subset hn) e List.mem_cons_self, like⟩

end Entry

namespace Scene

variable (cell : Vec2 Binary32) (ms : List Marker) {w w' : Window} {slot : Slot} {e n : Entry}

def entriesAt (slot : Slot) : List Entry :=
  Entry.kept (ms.zipIdx.filter fun e => e.slot cell = slot)

def entries (w : Window) : List Entry := w.slots.flatMap (entriesAt cell ms)

/-- The order of the slots, and in a slot the order of the places. -/
def Listed (n e : Entry) : Prop :=
  (n.slot cell).Before (e.slot cell) ∨ n.slot cell = e.slot cell ∧ n.2 < e.2 ∧ n.Unlike e

instance : Std.Irrefl (Listed cell) where
  irrefl e := by
    rintro (before | ⟨-, lt, -⟩)
    · exact before.ne rfl
    · exact Nat.lt_irrefl _ lt

instance : Std.Antisymm (Listed cell) where
  antisymm n e := by
    rintro (before | ⟨same, lt, -⟩) (before' | ⟨same', lt', -⟩)
    · exact absurd before' before.asymm
    · exact absurd same'.symm before.ne
    · exact absurd same.symm before'.ne
    · omega

theorem pairwise_zipIdx (l : List Marker) : l.zipIdx.Pairwise fun n e => n.2 < e.2 := by
  rw [← List.pairwise_map, List.zipIdx_map_snd]
  exact List.pairwise_lt_range'

theorem mem_entriesAt (h : e ∈ entriesAt cell ms slot) :
    e ∈ ms.zipIdx ∧ e.slot cell = slot := by
  have mem := (Entry.kept_sublist _).subset h
  simpa using mem

theorem mem_entries : e ∈ entries cell ms w ↔
    w.contains (e.slot cell).coord = true ∧ e ∈ entriesAt cell ms (e.slot cell) := by
  rw [entries, List.mem_flatMap, ← Window.mem_slots]
  constructor
  · rintro ⟨slot, inside, mem⟩
    obtain rfl := (mem_entriesAt cell ms mem).2
    exact ⟨inside, mem⟩
  · rintro ⟨inside, mem⟩
    exact ⟨_, inside, mem⟩

theorem pairwise_entriesAt (slot : Slot) : (entriesAt cell ms slot).Pairwise (Listed cell) := by
  have places : (entriesAt cell ms slot).Pairwise fun n e => n.2 < e.2 :=
    ((pairwise_zipIdx ms).sublist List.filter_sublist).sublist (Entry.kept_sublist _)
  refine (places.and (Entry.pairwise_kept _)).imp_of_mem fun {n e} hn he both => ?_
  have own := (mem_entriesAt cell ms hn).2
  have own' := (mem_entriesAt cell ms he).2
  exact .inr ⟨own.trans own'.symm, both⟩

theorem pairwise_entries (w : Window) : (entries cell ms w).Pairwise (Listed cell) := by
  rw [entries, List.pairwise_flatMap]
  refine ⟨fun slot _ => pairwise_entriesAt cell ms slot, w.pairwise_slots.imp ?_⟩
  intro slot slot' before n hn e he
  left
  rwa [(mem_entriesAt cell ms hn).2, (mem_entriesAt cell ms he).2]

section Renumbered

variable {l : List Entry}

def relabelled (l : List Entry) : List Marker := renumber (l.map Prod.fst)

@[simp] theorem length_relabelled : (relabelled l).length = l.length := by
  simp [relabelled, renumber]

theorem getElem_relabelled {i : Nat} (h : i < l.length) (h' : i < (relabelled l).length) :
    (relabelled l)[i] = { l[i].1 with id := Int32.ofNat i } := by
  simp [relabelled, renumber]

theorem relabelled_zipIdx (l : List Entry) : relabelled (relabelled l).zipIdx = relabelled l := by
  rw [relabelled, List.zipIdx_map_fst, relabelled]
  apply List.ext_getElem?
  intro i
  simp [renumber, Function.comp_def]

theorem pairwise_zipIdx_relabelled (h : l.Pairwise (Listed cell)) :
    (relabelled l).zipIdx.Pairwise (Listed cell) := by
  rw [List.pairwise_iff_getElem] at h ⊢
  intro i k hi hk lt
  rw [List.length_zipIdx, length_relabelled] at hi hk
  have listed := h i k hi hk lt
  simp only [List.getElem_zipIdx, getElem_relabelled hi, getElem_relabelled hk]
  rw [Nat.zero_add, Nat.zero_add]
  exact listed.imp_right fun ⟨same, _, unlike⟩ => ⟨same, lt, unlike⟩

end Renumbered

def Covers (w : Window) : Prop :=
  ∀ m ∈ ms, w.contains (Slot.ofLocation cell m.location).coord = true

variable {cell ms}

theorem Covers.entry (h : Covers cell ms w) (he : e ∈ ms.zipIdx) :
    w.contains (e.slot cell).coord = true :=
  h e.1 (List.fst_mem_of_mem_zipIdx he)

/-- A window that covers the markers leaves no trace in their listing. -/
theorem entries_eq_of_covers (h : Covers cell ms w) (h' : Covers cell ms w') :
    entries cell ms w' = entries cell ms w := by
  -- Both are sorted, so it is enough that they have the same entries.
  apply (pairwise_entries cell ms w').eq_of_mem_iff (pairwise_entries cell ms w)
  intro e
  rw [mem_entries, mem_entries]
  apply and_congr_left
  intro mem
  have place := (mem_entriesAt cell ms mem).1
  exact iff_of_true (h'.entry place) (h.entry place)

theorem map_fst_entriesAt (cell : Vec2 Binary32) (ms : List Marker) (slot : Slot) :
    (entriesAt cell ms slot).map Prod.fst =
      (ms.filter fun m => Slot.ofLocation cell m.location = slot).foldl MarkerList.add [] := by
  have own : (ms.zipIdx.filter fun e : Entry => e.slot cell = slot).map Prod.fst =
      (ms.zipIdx.map Prod.fst).filter fun m => Slot.ofLocation cell m.location = slot := by
    rw [List.filter_map]
    rfl
  rw [entriesAt, Entry.map_fst_kept, own, List.zipIdx_map_fst]

def unfilled (cellSize : Vec3 Binary32) (ms : List Marker) (margin : Int) : Scene :=
  { cellSize
    slots := Cells.fill (windowOf cellSize.flat (ms.map Marker.location) margin) (.replicate [])
    nextId := Int32.ofNat ms.length }

section Filled

variable (cellSize : Vec3 Binary32) (ms : List Marker) (margin : Int)

theorem markers_unfilled (slot : Slot) : (unfilled cellSize ms margin).markers slot = [] := by
  simp only [markers, unfilled, SlotGrid.slot?, Cells.get?_fill]
  split
  · cases slot.part <;> rfl
  · rfl

theorem ofMarkers_eq : ofMarkers cellSize ms margin =
    ms.foldl (fun s m => s.add (s.slotOf m.location) m) (unfilled cellSize ms margin) := rfl

theorem window_ofMarkers : (ofMarkers cellSize ms margin).window =
    windowOf cellSize.flat (ms.map Marker.location) margin := by
  rw [ofMarkers_eq, window_foldl_add]
  rfl

theorem markers_ofMarkers
    (inside : (ofMarkers cellSize ms margin).window.contains slot.coord = true) :
    (ofMarkers cellSize ms margin).markers slot =
      (entriesAt cellSize.flat ms slot).map Prod.fst := by
  rw [ofMarkers_eq, window_foldl_add] at inside
  rw [ofMarkers_eq, markers_foldl_add _ _ inside, markers_unfilled, map_fst_entriesAt]
  rfl

theorem flatten_ofMarkers :
    (ofMarkers cellSize ms margin).flatten =
      relabelled (entries cellSize.flat ms (ofMarkers cellSize ms margin).window) := by
  rw [flatten_eq, relabelled, entries, List.map_flatMap]
  congr 1
  apply List.flatMap_congr
  intro slot hs
  exact markers_ofMarkers cellSize ms margin (Window.mem_slots.mp hs)

end Filled

theorem entries_eq_zipIdx (sorted : ms.zipIdx.Pairwise (Listed cell)) (h : Covers cell ms w) :
    entries cell ms w = ms.zipIdx := by
  have unlike (slot : Slot) : (ms.zipIdx.filter fun e : Entry => e.slot cell = slot).Pairwise
      Entry.Unlike := by
    refine (sorted.sublist List.filter_sublist).imp_of_mem fun {n e} hn he listed => ?_
    have same : n.slot cell = e.slot cell := by
      rw [List.mem_filter, decide_eq_true_eq] at hn he
      exact hn.2.trans he.2.symm
    rcases listed with before | ⟨-, -, unlike⟩
    · exact absurd same before.ne
    · exact unlike
  apply (pairwise_entries cell ms w).eq_of_mem_iff sorted
  intro e
  rw [mem_entries, entriesAt, Entry.kept_eq_self (unlike _)]
  constructor
  · rintro ⟨-, mem⟩
    exact List.mem_of_mem_filter mem
  · intro mem
    exact ⟨h.entry mem, List.mem_filter.mpr ⟨mem, by simp⟩⟩

/-- `fs` is `ms` in the order of the slots, and in a slot in its own order, under
new identifiers and without what repeats an earlier marker of its slot. -/
structure Lists (cell : Vec2 Binary32) (ms fs : List Marker) (places : List (Fin ms.length)) :
    Prop where
  markers : fs = (places.map ms.get).mapIdx fun i m => { m with id := Int32.ofNat i }
  nodup : places.Nodup
  sorted : places.Pairwise fun i k =>
    (Slot.ofLocation cell ms[i].location).Before (Slot.ofLocation cell ms[k].location) ∨
      Slot.ofLocation cell ms[i].location = Slot.ofLocation cell ms[k].location ∧ i < k
  complete : ∀ k, k ∈ places ∨ ∃ i ∈ places, i < k ∧
    Slot.ofLocation cell ms[i].location = Slot.ofLocation cell ms[k].location ∧
      ms[i].isSame ms[k] = true

theorem exists_entry (h : Covers cell ms w) (k : Fin ms.length) :
    (ms[k], k.1) ∈ entries cell ms w ∨ ∃ n ∈ entries cell ms w, n.2 < k ∧
      n.slot cell = Slot.ofLocation cell ms[k].location ∧ n.1.isSame ms[k] = true := by
  have listed {n : Entry} {slot : Slot} (mem : n ∈ entriesAt cell ms slot) :
      n.slot cell = slot ∧ n ∈ entries cell ms w := by
    obtain ⟨own, rfl⟩ := mem_entriesAt cell ms mem
    exact ⟨rfl, (mem_entries cell ms).mpr ⟨h.entry own, mem⟩⟩
  have own : (ms[k], k.1) ∈ ms.zipIdx.filter fun n : Entry =>
      n.slot cell = Slot.ofLocation cell ms[k].location := by
    rw [List.mem_filter, List.mem_zipIdx_iff_getElem?]
    exact ⟨List.getElem?_eq_getElem k.2, decide_eq_true rfl⟩
  rcases Entry.exists_kept ((pairwise_zipIdx ms).sublist List.filter_sublist) own with
    mem | ⟨n, mem, lt, same⟩
  · exact .inl (listed mem).2
  · exact .inr ⟨n, (listed mem).2, lt, (listed mem).1, same⟩

theorem lists_relabelled (h : Covers cell ms w) :
    ∃ places, Lists cell ms (relabelled (entries cell ms w)) places := by
  have origin : entries cell ms w ∈ Set.range (List.map fun k : Fin ms.length => (ms[k], k.1)) := by
    rw [Set.range_list_map]
    intro e he
    have own := (mem_entriesAt cell ms ((mem_entries cell ms).mp he).2).1
    obtain ⟨bound, value⟩ := List.getElem?_eq_some_iff.mp (List.mem_zipIdx_iff_getElem?.mp own)
    exact ⟨⟨e.2, bound⟩, Prod.ext value rfl⟩
  obtain ⟨places, hp⟩ := origin
  have sorted := pairwise_entries cell ms w
  have exists_entry := exists_entry h
  -- From here on the entries are those of the places, and the rest reads off them.
  rw [← hp] at sorted exists_entry ⊢
  refine ⟨places, ?_, sorted.nodup.of_map, ?_, fun k => ?_⟩
  · rw [relabelled, renumber, List.map_map]
    rfl
  · exact (List.pairwise_map.mp sorted).imp fun listed =>
      listed.imp_right fun ⟨same, lt, _⟩ => ⟨same, lt⟩
  · rcases exists_entry k with mem | ⟨n, mem, lt, slot, same⟩
    · obtain ⟨i, hi, entry⟩ := List.mem_map.mp mem
      obtain rfl : i = k := Fin.ext (congrArg Prod.snd entry)
      exact .inl hi
    · obtain ⟨i, hi, rfl⟩ := List.mem_map.mp mem
      exact .inr ⟨i, hi, lt, slot, same⟩

theorem exists_mem_of_mem_relabelled {l : List Entry} {m : Marker} (h : m ∈ relabelled l) :
    ∃ e ∈ l, m.location = e.1.location := by
  obtain ⟨i, hi, rfl⟩ := List.mem_iff_getElem.mp h
  rw [length_relabelled] at hi
  exact ⟨l[i], List.getElem_mem hi, by rw [getElem_relabelled hi]; rfl⟩

theorem covers_ofMarkers {cellSize : Vec3 Binary32} {ms : List Marker}
    (hx : cellSize.x.isNaN = false) (hy : cellSize.y.isNaN = false)
    (finite : ∀ m ∈ ms, m.location.flat.IsFinite) {margin : Int} (hm : 0 ≤ margin) :
    Covers cellSize.flat ms (ofMarkers cellSize ms margin).window := by
  intro m mem
  rw [window_ofMarkers]
  apply contains_windowOf hx hy _ hm (List.mem_map_of_mem mem)
  simpa only [List.forall_mem_map] using finite

/-- Building a scene and flattening it is a normal form: the window has room for
every marker, its margin leaves no trace, only repetitions are lost, and what was
flattened once stays as it is. -/
theorem flatten_ofMarkers_normal {cellSize : Vec3 Binary32} {ms : List Marker}
    (hx : cellSize.x.isNaN = false) (hy : cellSize.y.isNaN = false)
    (finite : ∀ m ∈ ms, m.location.flat.IsFinite) {margin : Int} (hm : 0 ≤ margin) :
    Covers cellSize.flat ms (ofMarkers cellSize ms margin).window ∧
      (∃ places, Lists cellSize.flat ms (ofMarkers cellSize ms margin).flatten places) ∧
      ∀ margin', 0 ≤ margin' →
        (ofMarkers cellSize ms margin').flatten = (ofMarkers cellSize ms margin).flatten ∧
          (ofMarkers cellSize (ofMarkers cellSize ms margin).flatten margin').flatten =
            (ofMarkers cellSize ms margin).flatten := by
  have covers := covers_ofMarkers hx hy finite hm
  refine ⟨covers, ?_, fun margin' hm' => ⟨?_, ?_⟩⟩
  · rw [flatten_ofMarkers]
    exact lists_relabelled covers
  · rw [flatten_ofMarkers, flatten_ofMarkers cellSize ms margin,
      entries_eq_of_covers covers (covers_ofMarkers hx hy finite hm')]
  · have flattened := flatten_ofMarkers cellSize ms margin
    have sorted := pairwise_zipIdx_relabelled _
      (pairwise_entries cellSize.flat ms (ofMarkers cellSize ms margin).window)
    rw [← flattened] at sorted
    have finite' : ∀ m ∈ (ofMarkers cellSize ms margin).flatten, m.location.flat.IsFinite := by
      intro m mem
      rw [flattened] at mem
      obtain ⟨e, he, same⟩ := exists_mem_of_mem_relabelled mem
      have own := (mem_entriesAt _ _ ((mem_entries _ _).mp he).2).1
      rw [same]
      exact finite e.1 (List.fst_mem_of_mem_zipIdx own)
    rw [flatten_ofMarkers, entries_eq_zipIdx sorted (covers_ofMarkers hx hy finite' hm'),
      flattened, relabelled_zipIdx]

def repeatedWall : List Marker :=
  [⟨7, "Floor", .ofPosition ⟨⟨0x43480000⟩, ⟨0x44160000⟩, .zero⟩⟩,
    ⟨8, "Wall", .ofPosition ⟨⟨0x43480000⟩, .zero, .zero⟩⟩,
    ⟨9, "Wall", .ofPosition ⟨⟨0x43480000⟩, ⟨0x38000000⟩, .zero⟩⟩]

def squareCell : Vec3 Binary32 := ⟨⟨0x43c80000⟩, ⟨0x43c80000⟩, ⟨0x43480000⟩⟩

theorem flatten_ofMarkers_repeatedWall :
    (ofMarkers squareCell repeatedWall 1).flatten.map Marker.name = ["Wall", "Floor"] ∧
      Covers squareCell.flat repeatedWall (ofMarkers squareCell repeatedWall 1).window ∧
      (∃ places, Lists squareCell.flat repeatedWall (ofMarkers squareCell repeatedWall 1).flatten
        places) ∧
      ∀ margin', 0 ≤ margin' →
        (ofMarkers squareCell repeatedWall margin').flatten =
            (ofMarkers squareCell repeatedWall 1).flatten ∧
          (ofMarkers squareCell (ofMarkers squareCell repeatedWall 1).flatten margin').flatten =
            (ofMarkers squareCell repeatedWall 1).flatten := by
  have finite : ∀ m ∈ repeatedWall, m.location.flat.IsFinite := by
    simp only [Vec2.IsFinite]
    decide +kernel
  exact ⟨by decide +kernel, flatten_ofMarkers_normal (by decide) (by decide) finite (by decide)⟩

end Scene

end MarkerLattice
