import MarkerLattice.Script
import MarkerLattice.Stored

/-!
The stored forms of scripts.
-/
namespace MarkerLattice

instance : Stored Signal :=
  Variants.stored ⟨[.unit "Bool" .bool, .unit "Exec" .exec]⟩

instance : Stored Direction :=
  Variants.stored ⟨[.unit "Input" .input, .unit "Output" .output]⟩

instance : Stored Constraint :=
  Variants.stored ⟨[.unit "Mandatory" .mandatory, .unit "Optional" .optional]⟩

namespace Link

def record : Record Link where
  start := ⟨0, ""⟩
  fields := [
    .required "node" node fun x l => { l with node := x },
    .required "pin" pin fun x l => { l with pin := x }]
  mayStopEarly := false

instance : Stored Link := record.stored

end Link

namespace Pin

def record : Record Pin where
  start := unlinked "" .bool .input .mandatory
  fields := [
    .required "name" name fun x p => { p with name := x },
    .required "data_type" signal fun x p => { p with signal := x },
    .required "direction" direction fun x p => { p with direction := x },
    .required "constraint" constraint fun x p => { p with constraint := x },
    .required "default_value" defaultText fun x p => { p with defaultText := x },
    .optional "linked_to" link fun x p => { p with link := x }]
  mayStopEarly := false

instance : Stored Pin := record.stored

end Pin

namespace Emission

def record : Record Emission where
  start := ⟨"", [], []⟩
  fields := [
    .required "marker_name" name fun x e => { e with name := x },
    .required "copy_rotation_from_markers" rotationFrom
      fun x e => { e with rotationFrom := x },
    .required "copy_height_from_markers" heightFrom fun x e => { e with heightFrom := x }]
  mayStopEarly := false

instance : Stored Emission := record.stored

end Emission

namespace NodeKind

def nameRecord : Record String where
  start := ""
  fields := [.required "marker_name" id fun x _ => x]
  mayStopEarly := false

def variants : Variants NodeKind where
  list := [
    .unit "Result" result,
    .unit "OnPass" onPass,
    .ofStored inferInstance "EmitMarker" emitMarker fun
      | emitMarker e => some e
      | _ => none,
    .ofStored nameRecord.stored "RemoveMarker" removeMarker fun
      | removeMarker name => some name
      | _ => none,
    .unit "LogicalAnd" logicalAnd,
    .unit "LogicalOr" logicalOr,
    .unit "LogicalNot" logicalNot,
    .ofStored nameRecord.stored "MarkerExists" markerExists fun
      | markerExists name => some name
      | _ => none]

instance : Stored NodeKind := variants.stored

end NodeKind

namespace Node

def record : Record Node where
  start := ⟨0, .result, .empty, .empty⟩
  fields := [
    .required "id" id fun x n => { n with id := x },
    .required "kind" kind fun x n => { n with kind := x },
    .required "input_pins" inputs fun x n => { n with inputs := x },
    .required "output_pins" outputs fun x n => { n with outputs := x }]
  mayStopEarly := false

instance : Stored Node := record.stored

end Node

namespace Script

def record : Record Script where
  start := empty
  fields := [
    .required "nodes" nodes fun x s => { s with nodes := x },
    .required "next_node_id" nextId fun x s => { s with nextId := x },
    .optional "result_node" resultId fun x s => { s with resultId := x },
    .optional "pass_event_node" passId fun x s => { s with passId := x }]
  mayStopEarly := false

instance : Stored Script := record.stored

end Script

end MarkerLattice
