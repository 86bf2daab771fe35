import Mathlib.Data.List.Forall2
import Mathlib.Tactic
import MarkerLattice.Stored

/-! Packed values are read back. What follows a value does not matter to its reader,
so values can be read one behind another. -/
namespace MarkerLattice

namespace Bytes

theorem text?_ofString (s : String) : text? (ofString s) = some s := by
  have valid : ByteArray.IsValidUTF8 ⟨(ofString s).toArray⟩ := s.isValidUTF8
  rw [text?, String.fromUTF8?, dif_pos valid]
  rfl

@[simp] theorem length_ofNatLE (width n : ℕ) : (ofNatLE width n).length = width := by
  induction width generalizing n with
  | zero => rfl
  | succ width ih => rw [ofNatLE, List.length_cons, ih]

theorem toNatLE_ofNatLE {width n : ℕ} (h : n < 256 ^ width) :
    toNatLE (ofNatLE width n) = n := by
  induction width generalizing n with
  | zero =>
    obtain rfl : n = 0 := by omega
    rfl
  | succ width ih =>
    have high : n / 256 < 256 ^ width := Nat.div_lt_of_lt_mul (by rwa [← Nat.pow_succ'])
    have rest := ih high
    rw [toNatLE] at rest
    rw [ofNatLE, toNatLE, List.foldr_cons, rest, UInt8.toNat_ofNat']
    omega

theorem split?_append (front rest : Bytes) :
    split? front.length (front ++ rest) = some (front, rest) := by
  simp [split?]

theorem split?_eq_none {n : ℕ} {b : Bytes} (h : b.length < n) : split? n b = none := by
  simp [split?, h]

end Bytes

namespace NameMap

variable {α : Type}

theorem insertEntry_eq_append {name : String} {a : α} {l : List (String × α)}
    (h : ∀ e ∈ l, e.1 < name) : insertEntry name a l = l ++ [(name, a)] := by
  induction l with
  | nil => rfl
  | cons e rest ih =>
    obtain ⟨first, later⟩ := List.forall_mem_cons.mp h
    rw [insertEntry, if_neg (String.lt_asymm first),
      if_neg fun same => String.lt_irrefl _ (same ▸ first), ih later]
    rfl

theorem entries_foldl_insert {l : List (String × α)} {m : NameMap α}
    (h : ((m.entries ++ l).map Prod.fst).Pairwise (· < ·)) :
    (l.foldl (fun m e => m.insert e.1 e.2) m).entries = m.entries ++ l := by
  induction l generalizing m with
  | nil => simp
  | cons e rest ih =>
    have last : (m.insert e.1 e.2).entries = m.entries ++ [e] := by
      refine insertEntry_eq_append fun e' mem => ?_
      rw [List.map_append, List.pairwise_append] at h
      exact h.2.2 _ (List.mem_map_of_mem mem) _ (by simp)
    have sorted : (((m.insert e.1 e.2).entries ++ rest).map Prod.fst).Pairwise (· < ·) := by
      simpa [last] using h
    rw [List.foldl_cons, ih sorted, last, List.append_assoc]
    rfl

theorem ofList_entries (m : NameMap α) : ofList m.entries = m := by
  have listed : (ofList m.entries).entries = m.entries :=
    entries_foldl_insert (m := empty) (by simpa [empty] using m.sorted)
  obtain ⟨entries, sorted⟩ := m
  exact NameMap.mk.injEq .. ▸ listed

end NameMap

/-- Some bytes are read as `a`, whatever follows them. Their length has to fit into
the eight bytes that lengths are packed in. -/
def Reads {α : Type} (read : Bytes → Option (α × Bytes)) (b : Bytes) (a : α) : Prop :=
  b.length < 2 ^ 64 → ∀ rest, read (b ++ rest) = some (a, rest)

namespace Reads

open Stored

variable {α β : Type} {read : Bytes → Option (α × Bytes)} {write : α → Bytes}

theorem map {b : Bytes} {a : α} (h : Reads read b a) (f : α → β) :
    Reads (fun b => (read b).map fun (a, rest) => (f a, rest)) b (f a) := by
  intro fits rest
  simp only [h fits rest, Option.map_some]

theorem number (width : ℕ) {n : ℕ} (h : n < 256 ^ width) :
    Reads (unpackNat? width) (Bytes.ofNatLE width n) n := by
  intro _ rest
  have split := Bytes.split?_append (Bytes.ofNatLE width n) rest
  rw [Bytes.length_ofNatLE] at split
  simp only [unpackNat?, split, Option.map_some, Bytes.toNatLE_ofNatLE h]

theorem word (n : UInt32) : Reads (unpackNat? 4) (Bytes.ofNatLE 4 n.toNat) n.toNat :=
  number 4 n.toNat_lt

theorem many {l : List α} (h : ∀ a ∈ l, Reads read (write a) a) :
    Reads (unpackMany? read l.length) (l.flatMap write) l := by
  induction l with
  | nil => exact fun _ _ => rfl
  | cons a l ih =>
    intro fits rest
    obtain ⟨first, later⟩ := List.forall_mem_cons.mp h
    rw [List.flatMap_cons, List.length_append] at fits
    have head := first (by omega) (l.flatMap write ++ rest)
    have tail := ih later (by omega) rest
    simp only [List.length_cons, unpackMany?, List.flatMap_cons, List.append_assoc, head, tail,
      bind, Option.bind, pure]

theorem length_le_length_flatMap (filled : ∀ a, 0 < (write a).length) (l : List α) :
    l.length ≤ (l.flatMap write).length := by
  induction l with
  | nil => simp
  | cons a l ih =>
    have first := filled a
    rw [List.flatMap_cons, List.length_append, List.length_cons]
    omega

theorem list (h : ∀ a, Reads read (write a) a) (filled : ∀ a, 0 < (write a).length)
    (l : List α) : Reads (unpackList? read) (packList write l) l := by
  intro fits rest
  have count := length_le_length_flatMap filled l
  rw [packList, List.length_append, Bytes.length_ofNatLE] at fits
  have prefixed := number 8 (n := l.length) (by omega) (by simp)
    (l.flatMap write ++ rest)
  have items := many (l := l) (fun a _ => h a) (by omega) rest
  simp only [unpackList?, packList, List.append_assoc, prefixed, items, bind, Option.bind]

end Reads

/-- A type whose packed values are read back. Each takes a byte at least, so a list
has no more members than bytes. -/
class LawfulStored (α : Type) [Stored α] : Prop where
  filled (a : α) : 0 < (Stored.pack a).length
  reads (a : α) : Reads Stored.unpack? (Stored.pack a) a

namespace Stored

open LawfulStored (filled reads)

instance : LawfulStored Bool where
  filled _ := Nat.one_pos
  reads b _ rest := by cases b <;> rfl

instance : LawfulStored UInt32 where
  filled _ := by simp [pack]
  reads n := by
    have reads := (Reads.word n).map UInt32.ofNat
    rwa [UInt32.ofNat_toNat] at reads

instance : LawfulStored Int32 where
  filled _ := by simp [pack]
  reads n := by
    have reads := (Reads.word n.toUInt32).map fun k => (UInt32.ofNat k).toInt32
    rwa [UInt32.ofNat_toNat, Int32.toInt32_toUInt32] at reads

instance : LawfulStored Binary32 where
  filled _ := by simp [pack]
  reads x := by
    have reads := (Reads.word x.bits).map fun k => Binary32.mk (UInt32.ofNat k)
    rwa [UInt32.ofNat_toNat] at reads

instance : LawfulStored String where
  filled _ := by simp [pack]
  reads s := by
    intro fits rest
    change (Bytes.ofNatLE 8 (Bytes.ofString s).length ++ Bytes.ofString s).length < _ at fits
    rw [List.length_append, Bytes.length_ofNatLE] at fits
    have prefixed := Reads.number 8 (n := (Bytes.ofString s).length) (by omega)
      (by simp) (Bytes.ofString s ++ rest)
    simp only [pack, unpack?, List.append_assoc, prefixed, Bytes.split?_append,
      Bytes.text?_ofString, bind, Option.bind, pure]

variable {α : Type} [Stored α] [LawfulStored α]

instance : LawfulStored (Option α) where
  filled
    | some _ => by simp [pack]
    | none => by simp [pack]
  reads
    | some a => by
      intro fits rest
      have inner := reads a (by simp only [pack, List.length_cons] at fits; omega) rest
      simp only [pack, unpack?, List.cons_append, inner, Option.map_some]
    | none => fun _ _ => rfl

instance : LawfulStored (List α) where
  filled l := by simp [pack, packList]
  reads := Reads.list reads filled

theorem reads_packEntry (e : String × α) : Reads unpackEntry? (packEntry e) e := by
  intro fits rest
  rw [packEntry, List.length_append] at fits
  have name := reads e.1 (by omega) (pack e.2 ++ rest)
  have value := reads e.2 (by omega) rest
  simp only [ unpackEntry?, packEntry, List.append_assoc, name, value, bind, Option.bind, pure]

omit [LawfulStored α] in
theorem filled_packEntry (e : String × α) : 0 < (packEntry e).length := by
  have name := filled e.1
  rw [packEntry, List.length_append]
  omega

instance : LawfulStored (NameMap α) where
  filled m := by simp [pack, packList]
  reads m := by
    have entries := (Reads.list reads_packEntry filled_packEntry m.entries).map NameMap.ofList
    rwa [NameMap.ofList_entries] at entries

end Stored

namespace Field

variable {α β : Type}

structure Copies (f : Field α) (copy : α → α → α) : Prop where
  filled (a : α) : 0 < (f.pack a).length
  reads (a b : α) : Reads (f.unpackInto? · b) (f.pack a) (copy a b)

theorem Copies.make [Stored β] [LawfulStored β] {isRequired : Bool} {name : String}
    {get : α → β} {set : β → α → α} :
    (Field.make isRequired name get set).Copies fun a => set (get a) where
  filled a := LawfulStored.filled (get a)
  reads a b := (LawfulStored.reads (get a)).map fun x => set x b

end Field

namespace Record

variable {α : Type}

theorem reads_fields {fields : List (Field α)} {copies : List (α → α → α)}
    (h : List.Forall₂ Field.Copies fields copies) (a b : α) :
    Reads (unpackFields? fields · b) (fields.flatMap fun f => f.pack a)
      (copies.foldl (fun b copy => copy a b) b) := by
  induction h generalizing b with
  | nil => exact fun _ _ => rfl
  | @cons f copy fields copies first _ ih =>
    intro fits rest
    rw [List.flatMap_cons, List.length_append] at fits
    -- The later fields are read into what the first one has left, not into `b`.
    have head := first.reads a b (by omega) (fields.flatMap (fun f => f.pack a) ++ rest)
    have tail := ih (copy a b) (by omega) rest
    simp only [unpackFields?, List.flatMap_cons, List.append_assoc, head, tail, bind, Option.bind,
      List.foldl_cons]

theorem lawful {r : Record α} {f : Field α} {fields : List (Field α)}
    {copy : α → α → α} {copies : List (α → α → α)} (list : r.fields = f :: fields)
    (first : f.Copies copy) (later : List.Forall₂ Field.Copies fields copies)
    (whole : ∀ a, (copy :: copies).foldl (fun b copy => copy a b) r.start = a) :
    @LawfulStored α r.stored := by
  refine @LawfulStored.mk α r.stored (fun a => ?_) fun a => ?_
  · have head := first.filled a
    change 0 < (r.fields.flatMap fun f => f.pack a).length
    rw [list, List.flatMap_cons, List.length_append]
    omega
  · have reads := reads_fields (.cons first later) a r.start
    rw [whole, ← list] at reads
    exact reads

end Record

namespace Variant

variable {α β : Type}

def Lawful (x : Variant α) : Prop := ∀ a b, x.pack? a = some b → Reads x.unpack? b a

theorem lawful_unit [DecidableEq α] (name : String) (a : α) : (unit name a).Lawful := by
  intro b bytes packed fits rest
  obtain ⟨rfl, rfl⟩ : b = a ∧ [] = bytes := by simpa [unit] using packed
  rfl

theorem lawful_ofStored {s : Stored β} (h : @LawfulStored β s) {name : String} {build : β → α}
    {view : α → Option β} (back : ∀ a x, view a = some x → build x = a) :
    (ofStored s name build view).Lawful := by
  intro a bytes packed
  obtain ⟨x, held, rfl⟩ := Option.map_eq_some_iff.mp packed
  exact back a x held ▸ (LawfulStored.reads x).map build

end Variant

namespace Variants

variable {α : Type}

theorem packFrom_eq {a : α} {l : List (Variant α)} (h : ∃ x ∈ l, (x.pack? a).isSome) (i : ℕ) :
    ∃ j x b, l[j]? = some x ∧ x.pack? a = some b ∧
      packFrom a i l = Bytes.ofNatLE 4 (i + j) ++ b := by
  induction l generalizing i with
  | nil => simp at h
  | cons x rest ih =>
    rw [packFrom]
    cases packed : x.pack? a with
    | some b => exact ⟨0, x, b, rfl, packed, rfl⟩
    | none =>
      obtain ⟨j, y, b, found, packed', same⟩ := ih (by simpa [packed] using h) (i + 1)
      exact ⟨j + 1, y, b, found, packed', by
        rw [same, Nat.add_right_comm, Nat.add_assoc]⟩

theorem lawful {v : Variants α} (forms : ∀ x ∈ v.list, x.Lawful)
    (short : v.list.length ≤ 2 ^ 32) (whole : ∀ a, ∃ x ∈ v.list, (x.pack? a).isSome) :
    @LawfulStored α v.stored := by
  refine @LawfulStored.mk α v.stored (fun a => ?_) fun a fits rest => ?_
  · obtain ⟨j, x, b, -, -, same⟩ := packFrom_eq (whole a) 0
    change 0 < (packFrom a 0 v.list).length
    simp [same]
  · obtain ⟨j, x, b, found, packed, same⟩ := packFrom_eq (whole a) 0
    have place := (List.getElem?_eq_some_iff.mp found).1
    change (packFrom a 0 v.list).length < _ at fits
    change v.unpack? (packFrom a 0 v.list ++ rest) = _
    rw [same, Nat.zero_add] at fits ⊢
    rw [List.length_append] at fits
    have index := Reads.number 4 (n := j) (by omega) (by simp) (b ++ rest)
    have contents := forms x (List.mem_of_getElem? found) a b packed (by omega) rest
    simp only [Variants.unpack?, List.append_assoc, index, found, contents, bind, Option.bind]

end Variants

end MarkerLattice
