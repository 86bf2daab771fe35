import MarkerLattice.Proofs.Json.Number
import MarkerLattice.Proofs.Json.Tree
import MarkerLattice.Proofs.Keyed
import MarkerLattice.Proofs.Stored.Packed

/-! Values are read back from their JSON form. A record is read back from its fields,
whatever it started with, and a value with a part that has no form of its own is refused. -/
namespace MarkerLattice

namespace Stored

variable {α : Type} [Stored α]

/-- The form of `a` is whole. The value is read from it if `c` holds, and nothing is
otherwise. -/
structure ReadsIf (a : α) (c : Prop) : Prop where
  sound : (toTree a).Sound
  reads : c → ofTree (toTree a) = .ok a
  refuses : ¬c → ofTree (α := α) (toTree a) = .error .malformed

theorem ReadsIf.congr {a : α} {c c' : Prop} (h : ReadsIf a c) (same : c ↔ c') : ReadsIf a c' :=
  propext same ▸ h

end Stored

/-- A type whose values are read back from their JSON form. -/
class LawfulTree (α : Type) [Stored α] : Prop where
  readsIf (a : α) : Stored.ReadsIf a True

namespace Stored

theorem readsIf_true {α : Type} [Stored α] {a : α} (sound : (toTree a).Sound)
    (reads : ofTree (toTree a) = .ok a) : ReadsIf a True :=
  ⟨sound, fun _ => reads, fun h => absurd trivial h⟩

theorem textOf_escape (s : String) : textOf (JsonText.escape s) = .ok s := by
  rw [textOf, JsonText.text?_escape]

theorem intWithin_ofInt {lo hi n : ℤ} (low : lo ≤ n) (high : n ≤ hi) :
    intWithin lo hi (.number (.ofInt n)) = .ok n := by
  simp [intWithin, JsonNumber.toInt?_ofInt, low, high]

instance : LawfulTree Bool where
  readsIf b := readsIf_true (.bool b) rfl

instance : LawfulTree UInt32 where
  readsIf n := by
    refine readsIf_true (.number (JsonNumber.sound_ofInt _)) ?_
    have bound := n.toNat_lt
    have same : ((n.toNat : ℤ) % 2 ^ 32).toNat = n.toNat := by omega
    change (intWithin 0 (UInt32.size - 1) (.number (.ofInt n.toNat))).map UInt32.ofInt = .ok n
    rw [intWithin_ofInt (by omega) (by simp only [UInt32.size]; omega), Except.map, UInt32.ofInt,
      same, UInt32.ofNat_toNat]

instance : LawfulTree Int32 where
  readsIf n := by
    refine readsIf_true (.number (JsonNumber.sound_ofInt _)) ?_
    change (intWithin Int32.minValue.toInt Int32.maxValue.toInt (.number (.ofInt n.toInt))).map
      Int32.ofInt = .ok n
    rw [intWithin_ofInt n.minValue_le_toInt n.toInt_le, Except.map, Int32.ofInt_toInt]

instance : LawfulTree String where
  readsIf s := readsIf_true (.string (JsonText.sound_escape s)) (textOf_escape s)

variable {α : Type} [Stored α]

theorem mapM_toTree {l : List α} {c : α → Prop} (h : ∀ a ∈ l, ReadsIf a (c a))
    (all : ∀ a ∈ l, c a) : (l.map toTree).mapM ofTree = .ok l := by
  induction l with
  | nil => rfl
  | cons a l ih =>
    obtain ⟨first, later⟩ := List.forall_mem_cons.mp h
    obtain ⟨held, all⟩ := List.forall_mem_cons.mp all
    rw [List.map_cons, List.mapM_cons, first.reads held, ih later all]
    rfl

theorem mapM_toTree_refused {l : List α} {c : α → Prop} (h : ∀ a ∈ l, ReadsIf a (c a))
    (some : ¬∀ a ∈ l, c a) :
    (l.map toTree).mapM (ofTree (α := α)) = .error .malformed := by
  induction l with
  | nil => simp at some
  | cons a l ih =>
    obtain ⟨first, later⟩ := List.forall_mem_cons.mp h
    rw [List.map_cons, List.mapM_cons]
    by_cases held : c a
    · rw [first.reads held, ih later (by simpa [held] using some)]
      rfl
    · rw [first.refuses held]
      rfl

theorem readsIf_list {l : List α} {c : α → Prop} (h : ∀ a ∈ l, ReadsIf a (c a)) :
    ReadsIf l (∀ a ∈ l, c a) where
  sound := .array (List.forall_mem_map.mpr fun a mem => (h a mem).sound)
  reads all := by simp only [toTree, ofTree, mapM_toTree h all]; rfl
  refuses some := by simp only [toTree, ofTree, mapM_toTree_refused h some]; rfl

instance [LawfulTree α] : LawfulTree (List α) where
  readsIf l := (readsIf_list fun a _ => LawfulTree.readsIf a).congr (by simp)

theorem mapOfMembers_entries [LawfulTree α] (l : List (String × α)) (m : NameMap α) :
    mapOfMembers m (l.map fun e => (JsonText.escape e.1, toTree e.2)) =
      .ok (l.foldl (fun m e => m.insert e.1 e.2) m) := by
  induction l generalizing m with
  | nil => rfl
  | cons e l ih =>
    have value := (LawfulTree.readsIf e.2).reads trivial
    simp only [List.map_cons, mapOfMembers, textOf_escape, value, bind, Except.bind, ih,
      List.foldl_cons]

instance [LawfulTree α] : LawfulTree (NameMap α) where
  readsIf m := by
    refine readsIf_true (.object ?_ ?_) ?_
    · exact List.forall_mem_map.mpr fun e _ => JsonText.sound_escape e.1
    · exact List.forall_mem_map.mpr fun e _ => (LawfulTree.readsIf e.2).sound
    · simp only [toTree, ofTree, mapOfMembers_entries]
      exact congrArg Except.ok m.ofList_entries

/-- A type without a value whose form is null. -/
class Solid (α : Type) [Stored α] : Prop where
  toTree_ne_null (a : α) : toTree a ≠ .null

instance : Solid UInt32 := ⟨fun _ => nofun⟩

instance [LawfulTree α] [Solid α] : LawfulTree (Option α) where
  readsIf
    | none => readsIf_true .null rfl
    | some a => by
      obtain ⟨sound, reads, -⟩ := LawfulTree.readsIf a
      refine readsIf_true sound ?_
      have solid := Solid.toTree_ne_null a
      simp only [toTree, ofTree, reads trivial, Except.map]

end Stored

namespace Field

variable {α β : Type}

structure CopiesIf (f : Field α) (a : α) (copy : α → α) (c : Prop) : Prop where
  sound : (f.toTree a).Sound
  reads : c → ∀ b, f.readTree (f.toTree a) b = .ok (copy b)
  refuses : ¬c → ∀ b, f.readTree (f.toTree a) b = .error .malformed

theorem CopiesIf.make [Stored β] {a : α} {get : α → β} {c : Prop} (h : Stored.ReadsIf (get a) c)
    {isRequired : Bool} {name : String} {set : β → α → α} :
    (Field.make isRequired name get set).CopiesIf a (set (get a)) c where
  sound := h.sound
  reads held b := by simp only [Field.make, h.reads held, Except.map]
  refuses missing b := by simp only [Field.make, h.refuses missing, Except.map]

theorem CopiesIf.lawful [Stored β] [LawfulTree β] {a : α} {get : α → β} {isRequired : Bool}
    {name : String} {set : β → α → α} :
    (Field.make isRequired name get set).CopiesIf a (set (get a)) True :=
  .make (LawfulTree.readsIf _)

end Field

namespace Record

variable {α : Type}

inductive CopiesIf (a : α) : List (Field α) → (α → α) → Prop → Prop
  | nil : CopiesIf a [] id True
  | cons {f : Field α} {fields : List (Field α)} {copy copies : α → α} {c cs : Prop}
      (first : f.CopiesIf a copy c) (later : CopiesIf a fields copies cs) :
      CopiesIf a (f :: fields) (copies ∘ copy) (c ∧ cs)

variable {r : Record α} {a : α} {fields : List (Field α)} {copies : α → α} {c : Prop}

theorem CopiesIf.sound (h : CopiesIf a fields copies c) : ∀ f ∈ fields, (f.toTree a).Sound := by
  induction h with
  | nil => simp
  | cons first _ ih => exact List.forall_mem_cons.mpr ⟨first.sound, ih⟩

theorem readMembers_fields (names : (r.fields.map Field.name).Nodup)
    (h : CopiesIf a fields copies c) (within : fields ⊆ r.fields)
    (distinct : (fields.map Field.name).Nodup) {seen : List String}
    (unseen : ∀ f ∈ fields, f.name ∉ seen) (b : α) :
    (c → r.readMembers (fields.map fun f => (JsonText.escape f.name, f.toTree a)) seen b =
      .ok ((fields.map Field.name).reverse ++ seen, copies b)) ∧
    (¬c → r.readMembers (fields.map fun f => (JsonText.escape f.name, f.toTree a)) seen b =
      .error .malformed) := by
  induction h generalizing seen b with
  | nil => simp [readMembers]
  | @cons f fields copy copies c cs first later ih =>
    rw [List.map_cons, List.nodup_cons] at distinct
    obtain ⟨here, within⟩ := List.cons_subset.mp within
    obtain ⟨new, unseen⟩ := List.forall_mem_cons.mp unseen
    have found := find?_key names here
    have apart : ∀ g ∈ fields, g.name ∉ f.name :: seen := by
      intro g mem
      have other : g.name ≠ f.name := fun same => distinct.1 (same ▸ List.mem_map_of_mem mem)
      simp [other, unseen g mem]
    have rest := ih within distinct.2 apart (copy b)
    simp only [List.map_cons, readMembers, Stored.textOf_escape, found, if_neg new, bind,
      Except.bind]
    by_cases held : c
    · rw [first.reads held]
      simpa [held] using rest
    · simp [first.refuses held, held]

theorem readsIf (h : CopiesIf a r.fields copies c) (names : (r.fields.map Field.name).Nodup)
    (whole : copies r.start = a) : @Stored.ReadsIf α r.stored a c := by
  have members := readMembers_fields names h (List.Subset.refl _) names
    (show ∀ f ∈ r.fields, f.name ∉ [] by simp) r.start
  refine @Stored.ReadsIf.mk α r.stored a c (.object ?_ ?_) (fun held => ?_) fun missing => ?_
  · exact List.forall_mem_map.mpr fun f _ => JsonText.sound_escape f.name
  · exact List.forall_mem_map.mpr h.sound
  · have complete : r.fields.find? (fun f => f.isRequired && f.name ∉
        (r.fields.map Field.name).reverse ++ []) = none := by
      refine List.find?_eq_none.mpr fun f mem => ?_
      have listed : f.name ∈ r.fields.map Field.name := List.mem_map_of_mem mem
      simp [listed]
    simp only [Stored.ofTree, Stored.toTree, toTree, ofTree, members.1 held, bind, Except.bind,
      whole, complete]
    rfl
  · simp only [Stored.ofTree, Stored.toTree, toTree, ofTree, members.2 missing, bind, Except.bind]

theorem lawfulTree {r : Record α} {copies : α → α → α} {c : Prop}
    (h : ∀ a, CopiesIf a r.fields (copies a) c) (always : c) (names : (r.fields.map Field.name).Nodup)
    (whole : ∀ a, copies a r.start = a) : @LawfulTree α r.stored :=
  @LawfulTree.mk α r.stored fun a =>
    @Stored.ReadsIf.congr α r.stored a c True (readsIf (h a) names (whole a)) (by simp [always])

end Record

namespace Variant

variable {α β : Type}

def ReadsBack (x : Variant α) : Prop :=
  ∀ a t, x.toTree? a = some t → t.Sound ∧ x.ofTree t = .ok a ∧ (x.isUnit = true → t = .null)

theorem readsBack_unit [DecidableEq α] (name : String) (a : α) : (unit name a).ReadsBack := by
  intro b t held
  obtain ⟨rfl, rfl⟩ : b = a ∧ JsonTree.null = t := by simpa [unit] using held
  exact ⟨.null, rfl, fun _ => rfl⟩

theorem readsBack_ofStored {s : Stored β} (h : @LawfulTree β s) {name : String} {build : β → α}
    {view : α → Option β} (back : ∀ a x, view a = some x → build x = a) :
    (ofStored s name build view).ReadsBack := by
  intro a t held
  obtain ⟨x, found, rfl⟩ := Option.map_eq_some_iff.mp held
  obtain ⟨sound, reads, -⟩ := LawfulTree.readsIf x
  refine ⟨sound, ?_, nofun⟩
  simp only [ofStored, reads trivial, Except.map, back a x found]

end Variant

namespace Variants

variable {α : Type}

theorem named_of_textOf {v : Variants α} (names : (v.list.map Variant.name).Nodup) {x : Variant α}
    (mem : x ∈ v.list) {raw : Bytes} (name : Stored.textOf raw = .ok x.name) :
    v.named raw = .ok x := by
  simp only [named, name, find?_key names mem, bind, Except.bind]

theorem lawfulTree {v : Variants α} (forms : ∀ x ∈ v.list, x.ReadsBack)
    (names : (v.list.map Variant.name).Nodup) (whole : ∀ a, ∃ x ∈ v.list, (x.toTree? a).isSome) :
    @LawfulTree α v.stored := by
  refine @LawfulTree.mk α v.stored fun a => ?_
  obtain ⟨x, mem, t, held, form⟩ : ∃ x ∈ v.list, ∃ t, x.toTree? a = some t ∧ v.toTree a =
      if x.isUnit then .ofString x.name else .object [(JsonText.escape x.name, t)] true := by
    obtain ⟨x, mem, some⟩ := whole a
    obtain ⟨tree, found⟩ := Option.isSome_iff_exists.mp
      (List.findSome?_isSome_iff.mpr ⟨x, mem, by simpa using some⟩ :
        (v.list.findSome? fun x => (x.toTree? a).map fun t => if x.isUnit then .ofString x.name
          else JsonTree.object [(JsonText.escape x.name, t)] true).isSome)
    obtain ⟨y, mem, form⟩ := List.exists_of_findSome?_eq_some found
    obtain ⟨t, held, form⟩ := Option.map_eq_some_iff.mp form
    exact ⟨y, mem, t, held, by rw [toTree, found, ← form]; rfl⟩
  obtain ⟨sound, reads, empty⟩ := forms x mem a t held
  have known := named_of_textOf names mem (Stored.textOf_escape x.name)
  refine @Stored.readsIf_true α v.stored a ?_ ?_
  · change (v.toTree a).Sound
    rw [form]
    split
    next => exact .string (JsonText.sound_escape _)
    next => exact .object (by simp [JsonText.sound_escape]) (by simpa using sound)
  · change v.ofTree (v.toTree a) = .ok a
    rw [form]
    split
    next single =>
      rw [empty single] at reads
      simp only [JsonTree.ofString, ofTree, known, bind, Except.bind, single, if_true, reads]
    next => simp [ofTree, known, bind, Except.bind, reads]

end Variants

end MarkerLattice
