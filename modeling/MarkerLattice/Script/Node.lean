import MarkerLattice.Script.Pin

/-!
Script nodes: a kind, and named pins on either side. Conditions give truth
values, actions change the slot that a rule stands on.
-/
namespace MarkerLattice

/-- What an emission adds, and the names of markers in the same slot from which
it takes rotation and height. -/
structure Emission where
  name : String
  rotationFrom : List String
  heightFrom : List String
deriving DecidableEq, Repr

inductive NodeKind where
  /-- The entry of the condition: its operand decides whether a rule matches. -/
  | result
  | onPass
  | emitMarker (emission : Emission)
  | removeMarker (name : String)
  | logicalAnd
  | logicalOr
  | logicalNot
  | markerExists (name : String)
deriving DecidableEq, Repr

namespace NodeKind

def isConditional : NodeKind → Bool
  | result | logicalAnd | logicalOr | logicalNot | markerExists _ => true
  | onPass | emitMarker _ | removeMarker _ => false

def isAction (k : NodeKind) : Bool := !k.isConditional

def isEffect (k : NodeKind) : Bool := k.isAction && k != onPass

def isEmission : NodeKind → Bool
  | emitMarker _ => true
  | _ => false

def title : NodeKind → String
  | result => "Selection Condition"
  | onPass => "On Pattern Selected"
  | emitMarker _ => "Emit Marker"
  | removeMarker _ => "Remove Marker"
  | logicalAnd => "AND"
  | logicalOr => "OR"
  | logicalNot => "NOT"
  | markerExists _ => "Marker Exists"

def markerName? : NodeKind → Option String
  | emitMarker e => some e.name
  | removeMarker name | markerExists name => some name
  | _ => none

def inputPins : NodeKind → List Pin
  | result => [.unlinked Pin.select .bool .input .mandatory]
  | onPass | markerExists _ => []
  | emitMarker _ | removeMarker _ => [.unlinked Pin.defaultInput .exec .input .mandatory]
  | logicalAnd | logicalOr =>
    [.unlinked Pin.a .bool .input .mandatory, .unlinked Pin.b .bool .input .mandatory]
  | logicalNot => [.unlinked Pin.defaultInput .bool .input .mandatory]

def outputPins : NodeKind → List Pin
  | result => []
  | onPass | emitMarker _ | removeMarker _ =>
    [.unlinked Pin.defaultOutput .exec .output .optional]
  | logicalAnd | logicalOr | logicalNot | markerExists _ =>
    [.unlinked Pin.defaultOutput .bool .output .optional]

end NodeKind

structure Node where
  id : NodeId
  kind : NodeKind
  inputs : NameMap Pin
  outputs : NameMap Pin
deriving DecidableEq

namespace Node

def ofKind (id : NodeId) (kind : NodeKind) : Node :=
  { id, kind
    inputs := .ofList (kind.inputPins.map fun p => (p.name, p))
    outputs := .ofList (kind.outputPins.map fun p => (p.name, p)) }

def pins (n : Node) : Direction → NameMap Pin
  | .input => n.inputs
  | .output => n.outputs

def pin? (n : Node) (name : String) (direction : Direction) : Option Pin :=
  (n.pins direction).get? name

def modifyPin (n : Node) (name : String) (direction : Direction) (f : Pin → Pin) : Node :=
  match direction with
  | .input => { n with inputs := n.inputs.modify name f }
  | .output => { n with outputs := n.outputs.modify name f }

/-- The first output, by name, that carries the order of actions. -/
def execOutput? (n : Node) : Option Pin :=
  n.outputs.values.find? fun p => p.signal = .exec

/-- A condition with more than one operand is written in parentheses when it is
an operand itself. -/
def isBinary (n : Node) : Bool := n.kind.isConditional && 1 < n.inputs.size

end Node

end MarkerLattice
