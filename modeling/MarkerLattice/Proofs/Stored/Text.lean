import MarkerLattice.Proofs.Json.Binary32
import MarkerLattice.Proofs.Stored.Tree
import MarkerLattice.Stored.Model

/-! The JSON forms of scripts, models and markers are read back, type by type. What
holds no number of single precision is always read back. -/
namespace MarkerLattice

open Record (CopiesIf)
open Stored (ReadsIf)
open Variant (readsBack_unit readsBack_ofStored)

section Forms

instance : LawfulTree Signal :=
  Variants.lawfulTree (by simp [readsBack_unit]) (by decide) fun a => by cases a <;> decide

instance : LawfulTree Direction :=
  Variants.lawfulTree (by simp [readsBack_unit]) (by decide) fun a => by cases a <;> decide

instance : LawfulTree Constraint :=
  Variants.lawfulTree (by simp [readsBack_unit]) (by decide) fun a => by cases a <;> decide

instance : LawfulTree SubCell :=
  Variants.lawfulTree (by simp [readsBack_unit]) (by decide) fun a => by cases a <;> decide

instance : LawfulTree EdgeMode :=
  Variants.lawfulTree (by simp [readsBack_unit]) (by decide) fun a => by cases a <;> decide

end Forms

section Scripts

instance : LawfulTree Link :=
  Record.lawfulTree (fun _ => .cons .lawful <| .cons .lawful .nil) (by simp) (by decide) fun _ => rfl

instance : Stored.Solid Link := ⟨fun _ => nofun⟩

instance : LawfulTree Pin :=
  Record.lawfulTree (fun _ => .cons .lawful <| .cons .lawful <| .cons .lawful <| .cons .lawful <|
    .cons .lawful <| .cons .lawful .nil) (by simp) (by decide) fun _ => rfl

instance : LawfulTree Emission :=
  Record.lawfulTree (fun _ => .cons .lawful <| .cons .lawful <| .cons .lawful .nil) (by simp)
    (by decide) fun _ => rfl

namespace NodeKind

theorem lawfulTree_nameRecord : @LawfulTree String nameRecord.stored :=
  Record.lawfulTree (fun _ => .cons .lawful .nil) (by simp) (by decide) fun _ => rfl

theorem readsBack_variants : ∀ x ∈ variants.list, x.ReadsBack := by
  simp only [variants, List.forall_mem_cons]
  refine ⟨readsBack_unit _ _, readsBack_unit _ _, readsBack_ofStored inferInstance ?_,
    readsBack_ofStored lawfulTree_nameRecord ?_, readsBack_unit _ _, readsBack_unit _ _,
    readsBack_unit _ _, readsBack_ofStored lawfulTree_nameRecord ?_, by simp⟩
  all_goals
    intro a x held
    cases a <;> simp_all

instance : LawfulTree NodeKind :=
  Variants.lawfulTree readsBack_variants (by decide) fun a => by
    cases a <;> simp [variants, Variant.unit, Variant.ofStored]

end NodeKind

instance : LawfulTree Node :=
  Record.lawfulTree (fun _ => .cons .lawful <| .cons .lawful <| .cons .lawful <|
    .cons .lawful .nil) (by simp) (by decide) fun _ => rfl

instance : LawfulTree Script :=
  Record.lawfulTree (fun _ => .cons .lawful <| .cons .lawful <| .cons .lawful <|
    .cons .lawful .nil) (by simp) (by decide) fun _ => rfl

end Scripts

section Models

namespace Stored

variable {α β : Type} [Stored β] {size : ℕ} {toList : α → List β} {ofList? : List β → Option α}

theorem readsIf_tuple {a : α} {c' : Prop} (length : ∀ a, (toList a).length = size)
    (back : ∀ a, ofList? (toList a) = some a) {c : β → Prop} (h : ∀ b, ReadsIf b (c b))
    (same : (∀ b ∈ toList a, c b) ↔ c') : @ReadsIf α (.tuple size toList ofList?) a c' := by
  have whole : ((toList a).map toTree).take size = (toList a).map toTree :=
    List.take_of_length_le (by simp [length])
  refine @ReadsIf.mk α (.tuple size toList ofList?) a c' (.array ?_) (fun all => ?_) fun some => ?_
  · exact List.forall_mem_map.mpr fun b _ => (h b).sound
  · have numbers := mapM_toTree (fun b _ => h b) (same.mpr all)
    simp [ofTree, Stored.toTree, tupleTree, whole, numbers, length, back, bind, Except.bind]
  · have numbers := mapM_toTree_refused (fun b _ => h b) (mt same.mp some)
    simp [ofTree, Stored.toTree, tupleTree, whole, numbers, bind, Except.bind]

end Stored

instance : LawfulTree Offset where
  readsIf _ := Stored.readsIf_tuple (fun _ => rfl) (fun _ => rfl) LawfulTree.readsIf (by simp)

instance : LawfulTree Rule :=
  Record.lawfulTree (fun _ => .cons .lawful <| .cons .lawful <| .cons .lawful <|
    .cons .lawful .nil) (by simp) (by decide) fun _ => rfl

instance : LawfulTree Pattern :=
  Record.lawfulTree (fun _ => .cons .lawful .nil) (by simp) (by decide) fun _ => rfl

instance : Stored.Solid Pattern := ⟨fun _ => nofun⟩

instance : LawfulTree GridSettings :=
  Record.lawfulTree (fun _ => .cons .lawful <| .cons .lawful <| .cons .lawful <|
    .cons .lawful .nil) (by simp) (by decide) fun _ => rfl

namespace LayerDomain

theorem readsBack_variants : ∀ x ∈ variants.list, x.ReadsBack := by
  simp only [variants, List.forall_mem_cons]
  refine ⟨readsBack_ofStored inferInstance ?_, readsBack_unit _ _, by simp⟩
  intro a x held
  cases a <;> simp_all

instance : LawfulTree LayerDomain :=
  Variants.lawfulTree readsBack_variants (by decide) fun a => by
    cases a <;> simp [variants, Variant.unit, Variant.ofStored]

end LayerDomain

theorem Binary32.readsIf (x : Binary32) : ReadsIf x (x.isFinite = true) := by
  cases finite : x.isFinite with
  | true =>
    obtain ⟨n, found, sound, back⟩ := JsonNumber.ofBinary32?_reads finite
    have tree : Stored.toTree x = .number n := by simp [Stored.toTree, found]
    exact .congr (Stored.readsIf_true (tree ▸ .number sound) (by simp [tree, Stored.ofTree, back]))
      (by simp)
  | false =>
    have tree : Stored.toTree x = .null := by
      simp [Stored.toTree, JsonNumber.ofBinary32?_eq_none finite]
    exact ⟨tree ▸ .null, nofun, fun _ => by rw [tree]; rfl⟩

theorem Layer.readsIf (l : Layer) : ReadsIf l (l.probability.isFinite = true) :=
  .congr (Record.readsIf (.cons .lawful <| .cons (.make (Binary32.readsIf _)) <| .cons .lawful <|
    .cons .lawful <| .cons .lawful <| .cons .lawful <| .cons .lawful .nil) (by decide) rfl) (by simp)

theorem Model.readsIf (m : Model) : ReadsIf m (∀ l ∈ m.layers, l.probability.isFinite = true) :=
  .congr (Record.readsIf (.cons (.make (Stored.readsIf_list fun l _ => l.readsIf)) .nil)
    (by decide) rfl) (by simp)

end Models

section Markers

def Vec3.IsFinite (v : Vec3 Binary32) : Prop :=
  v.x.isFinite = true ∧ v.y.isFinite = true ∧ v.z.isFinite = true

def Quat.IsFinite (q : Quat Binary32) : Prop :=
  q.x.isFinite = true ∧ q.y.isFinite = true ∧ q.z.isFinite = true ∧ q.w.isFinite = true

def Pose.IsFinite (p : Pose Binary32) : Prop :=
  p.position.IsFinite ∧ p.rotation.IsFinite ∧ p.scale.IsFinite

instance (v : Vec3 Binary32) : Decidable v.IsFinite := inferInstanceAs (Decidable (_ ∧ _))

instance (q : Quat Binary32) : Decidable q.IsFinite := inferInstanceAs (Decidable (_ ∧ _))

instance (p : Pose Binary32) : Decidable p.IsFinite := inferInstanceAs (Decidable (_ ∧ _))

theorem Vec3.readsIf (v : Vec3 Binary32) : ReadsIf v v.IsFinite :=
  Stored.readsIf_tuple (fun _ => rfl) (fun _ => rfl) Binary32.readsIf (by simp [IsFinite])

theorem Quat.readsIf (q : Quat Binary32) : ReadsIf q q.IsFinite :=
  Stored.readsIf_tuple (fun _ => rfl) (fun _ => rfl) Binary32.readsIf (by simp [IsFinite])

theorem Pose.readsIf (p : Pose Binary32) : ReadsIf p p.IsFinite :=
  .congr (Record.readsIf (.cons (.make p.position.readsIf) <| .cons (.make p.rotation.readsIf) <|
    .cons (.make p.scale.readsIf) .nil) (by decide) rfl) (by simp [IsFinite])

theorem Marker.readsIf (m : Marker) : ReadsIf m m.pose.IsFinite :=
  .congr (Record.readsIf (.cons .lawful <| .cons .lawful <| .cons (.make m.pose.readsIf) .nil)
    (by decide) rfl) (by simp)

end Markers

section Texts

open Stored

variable {α : Type} [Stored α] {a : α} {c : Prop}

theorem Stored.ReadsIf.ofText (h : ReadsIf a c) (held : c) : ofText (toText a) = .ok a := by
  simp only [Stored.ofText, toText, JsonTree.ofBytes_toBytes h.sound, h.reads held]
  rfl

theorem Stored.ReadsIf.ofText_refused (h : ReadsIf a c) (missing : ¬c) :
    Stored.ofText (α := α) (toText a) = .error .malformed := by
  simp only [Stored.ofText, toText, JsonTree.ofBytes_toBytes h.sound, h.refuses missing]
  rfl

end Texts

end MarkerLattice
