import MarkerLattice.Layer
import MarkerLattice.Marker
import MarkerLattice.Stored.Script

/-!
The stored forms of models and of markers.
-/
namespace MarkerLattice

instance : Stored SubCell :=
  Variants.stored ⟨SubCell.all.map fun part => .unit part.name part⟩

instance : Stored EdgeMode :=
  Variants.stored ⟨[.unit "Legacy" .legacy, .unit "Corrected" .corrected]⟩

namespace Stored

def tupleTree {β : Type} [Stored β] (size : Nat) : JsonTree → Except JsonFault (List β)
  | .array items closed => do
    let l ← (items.take size).mapM ofTree
    if closed && items.length = size then .ok l else .error .malformed
  | _ => .error .malformed

abbrev tuple {α β : Type} [Stored β] (size : Nat) (toList : α → List β)
    (ofList? : List β → Option α) : Stored α where
  toTree a := .array ((toList a).map toTree) true
  ofTree t := do
    match ofList? (← tupleTree size t) with
    | some a => .ok a
    | none => .error .malformed
  pack a := (toList a).flatMap pack
  unpack? b := do
    let (l, b) ← unpackMany? unpack? size b
    return (← ofList? l, b)

end Stored

instance : Stored Offset :=
  .tuple 2 (fun o => [o.x, o.y]) fun
    | [x, y] => some ⟨x, y⟩
    | _ => none

instance : Stored (Vec3 Binary32) :=
  .tuple 3 (fun v => [v.x, v.y, v.z]) fun
    | [x, y, z] => some ⟨x, y, z⟩
    | _ => none

instance : Stored (Quat Binary32) :=
  .tuple 4 (fun q => [q.x, q.y, q.z, q.w]) fun
    | [x, y, z, w] => some ⟨x, y, z, w⟩
    | _ => none

namespace Pose

def record : Record (Pose Binary32) where
  start := identity
  fields := [
    .required "translation" position fun x p => { p with position := x },
    .required "rotation" rotation fun x p => { p with rotation := x },
    .required "scale" scale fun x p => { p with scale := x }]
  mayStopEarly := false

instance : Stored (Pose Binary32) := record.stored

end Pose

namespace Marker

def record : Record Marker where
  start := ⟨0, "", .identity⟩
  fields := [
    .required "id" id fun x m => { m with id := x },
    .required "marker_name" name fun x m => { m with name := x },
    .required "transform" pose fun x m => { m with pose := x }]
  mayStopEarly := false

instance : Stored Marker := record.stored

end Marker

namespace Rule

def record : Record Rule where
  start := ⟨⟨0, 0⟩, .ground, .empty, false⟩
  fields := [
    .required "coord" offset fun x r => { r with offset := x },
    .required "rule_type" part fun x r => { r with part := x },
    .required "script" script fun x r => { r with script := x },
    .required "hint_will_insert_asset_here" inserts fun x r => { r with inserts := x }]
  mayStopEarly := false

instance : Stored Rule := record.stored

end Rule

namespace Pattern

def record : Record Pattern where
  start := empty
  fields := [.required "rules" rules fun x _ => ⟨x⟩]
  mayStopEarly := false

instance : Stored Pattern := record.stored

end Pattern

namespace GridSettings

/-- Fields left out keep their standard values. -/
def record : Record GridSettings where
  start := standard
  fields := [
    .optional "same_height_markers" sameHeight fun x g => { g with sameHeight := x },
    .optional "expand_marker_domain" expand fun x g => { g with expand := x },
    .optional "expand_marker_domain_amount" amount fun x g => { g with amount := x },
    .optional "edge_height_mode" edgeMode fun x g => { g with edgeMode := x }]
  mayStopEarly := true

instance : Stored GridSettings := record.stored

end GridSettings

namespace LayerDomain

def variants : Variants LayerDomain where
  list := [
    .ofStored inferInstance "Grid" grid fun
      | grid g => some g
      | generic => none,
    .unit "Generic" generic]

instance : Stored LayerDomain := variants.stored

end LayerDomain

namespace Layer

def record : Record Layer where
  start := standard
  fields := [
    .optional "name" name fun x l => { l with name := x },
    .optional "probability" probability fun x l => { l with probability := x },
    .optional "rotate_to_fit" rotate fun x l => { l with rotate := x },
    .optional "randomize_fitting_order" shuffle fun x l => { l with shuffle := x },
    .optional "allow_insertion_overlaps" overlaps fun x l => { l with overlaps := x },
    .optional "pattern" pattern fun x l => { l with pattern := x },
    .optional "domain" domain fun x l => { l with domain := x }]
  mayStopEarly := true

instance : Stored Layer := record.stored

end Layer

namespace Model

def record : Record Model where
  start := ⟨[]⟩
  fields := [.required "layers" layers fun x _ => ⟨x⟩]
  mayStopEarly := false

instance : Stored Model := record.stored

end Model

def Stored.ofText {α : Type} [Stored α] (b : Bytes) : Except JsonFault α := do
  let (tree, trailing) := JsonTree.ofBytes b
  let a ← Stored.ofTree tree
  if trailing then .error .malformed else .ok a

def Stored.toText {α : Type} [Stored α] (a : α) : Bytes := (Stored.toTree a).toBytes

end MarkerLattice
