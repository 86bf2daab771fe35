import MarkerLattice.Proofs.Stored.Packed
import MarkerLattice.Stored.Model

/-! The packed forms of scripts and of models are read back, type by type. -/
namespace MarkerLattice

open Variant (lawful_unit lawful_ofStored)

section Forms

instance : LawfulStored Signal :=
  Variants.lawful (by simp [lawful_unit]) (by decide) fun a => by cases a <;> decide

instance : LawfulStored Direction :=
  Variants.lawful (by simp [lawful_unit]) (by decide) fun a => by cases a <;> decide

instance : LawfulStored Constraint :=
  Variants.lawful (by simp [lawful_unit]) (by decide) fun a => by cases a <;> decide

instance : LawfulStored SubCell :=
  Variants.lawful (by simp [lawful_unit]) (by decide) fun a => by cases a <;> decide

instance : LawfulStored EdgeMode :=
  Variants.lawful (by simp [lawful_unit]) (by decide) fun a => by cases a <;> decide

end Forms

section Scripts

instance : LawfulStored Link :=
  Record.lawful rfl .make (.cons .make .nil) fun _ => rfl

instance : LawfulStored Pin :=
  Record.lawful rfl .make (.cons .make <| .cons .make <| .cons .make <| .cons .make <|
    .cons .make .nil) fun _ => rfl

instance : LawfulStored Emission :=
  Record.lawful rfl .make (.cons .make <| .cons .make .nil) fun _ => rfl

namespace NodeKind

theorem lawful_nameRecord : @LawfulStored String nameRecord.stored :=
  Record.lawful rfl .make .nil fun _ => rfl

theorem lawful_variants : ∀ x ∈ variants.list, x.Lawful := by
  simp only [variants, List.forall_mem_cons]
  refine ⟨lawful_unit _ _, lawful_unit _ _, lawful_ofStored inferInstance ?_,
    lawful_ofStored lawful_nameRecord ?_, lawful_unit _ _, lawful_unit _ _, lawful_unit _ _,
    lawful_ofStored lawful_nameRecord ?_, by simp⟩
  all_goals
    intro a x held
    cases a <;> simp_all

instance : LawfulStored NodeKind :=
  Variants.lawful lawful_variants (by decide) fun a => by
    cases a <;> simp [variants, Variant.unit, Variant.ofStored]

end NodeKind

instance : LawfulStored Node :=
  Record.lawful rfl .make (.cons .make <| .cons .make <| .cons .make .nil) fun _ => rfl

instance : LawfulStored Script :=
  Record.lawful rfl .make (.cons .make <| .cons .make <| .cons .make .nil) fun _ => rfl

end Scripts

section Models

theorem Stored.lawful_tuple {α β : Type} [Stored β] [LawfulStored β] {size : ℕ}
    {toList : α → List β} {ofList? : List β → Option α} (length : ∀ a, (toList a).length = size)
    (filled : 0 < size) (back : ∀ a, ofList? (toList a) = some a) :
    @LawfulStored α (.tuple size toList ofList?) := by
  refine @LawfulStored.mk α (.tuple size toList ofList?) (fun a => ?_) fun a fits rest => ?_
  · have count := Reads.length_le_length_flatMap (LawfulStored.filled (α := β)) (toList a)
    rw [length] at count
    change 0 < ((toList a).flatMap Stored.pack).length
    omega
  · have numbers := Reads.many (l := toList a) (fun b _ => LawfulStored.reads b) fits rest
    rw [length] at numbers
    unfold Stored.unpack? Stored.pack Stored.tuple
    simp only [numbers, back, bind, Option.bind, pure]

instance : LawfulStored Offset :=
  Stored.lawful_tuple (fun _ => rfl) (by decide) fun _ => rfl

instance : LawfulStored Rule :=
  Record.lawful rfl .make (.cons .make <| .cons .make <| .cons .make .nil) fun _ => rfl

instance : LawfulStored Pattern := Record.lawful rfl .make .nil fun _ => rfl

instance : LawfulStored GridSettings :=
  Record.lawful rfl .make (.cons .make <| .cons .make <| .cons .make .nil) fun _ => rfl

namespace LayerDomain

theorem lawful_variants : ∀ x ∈ variants.list, x.Lawful := by
  simp only [variants, List.forall_mem_cons]
  refine ⟨lawful_ofStored inferInstance ?_, lawful_unit _ _, by simp⟩
  intro a x held
  cases a <;> simp_all

instance : LawfulStored LayerDomain :=
  Variants.lawful lawful_variants (by decide) fun a => by
    cases a <;> simp [variants, Variant.unit, Variant.ofStored]

end LayerDomain

instance : LawfulStored Layer :=
  Record.lawful rfl .make (.cons .make <| .cons .make <| .cons .make <| .cons .make <|
    .cons .make <| .cons .make .nil) fun _ => rfl

instance : LawfulStored Model := Record.lawful rfl .make .nil fun _ => rfl

end Models

end MarkerLattice
