import MarkerLattice.Script.Node

/-!
Scripts: graphs of nodes with two entries, built by editing steps. Nodes stay
in the order of their creation, and identifiers are never handed out twice.
-/
namespace MarkerLattice

inductive ScriptError where
  | unknownNode (id : NodeId)
  | unknownPin (id : NodeId) (pin : String) (direction : Direction)
  | signalMismatch (output input : Signal)
  | selfLink (id : NodeId)
deriving DecidableEq, Repr

namespace ScriptError

def signalText : Signal → String
  | .bool => "Bool"
  | .exec => "Exec"

def directionText : Direction → String
  | .input => "Input"
  | .output => "Output"

def message : ScriptError → String
  | unknownNode id => "unknown script node " ++ toString id.toNat
  | unknownPin id pin direction =>
    "node " ++ toString id.toNat ++ " has no " ++ directionText direction ++
      " pin named '" ++ pin ++ "'"
  | signalMismatch output input =>
    "cannot link " ++ signalText output ++ " output to " ++ signalText input ++ " input"
  | selfLink id => "node " ++ toString id.toNat ++ " cannot link to itself"

end ScriptError

structure Script where
  nodes : List Node
  nextId : UInt32
  resultId : Option NodeId
  passId : Option NodeId
deriving DecidableEq

namespace Script

/-- A script without nodes or entries. It never matches. -/
def empty : Script := { nodes := [], nextId := 0, resultId := none, passId := none }

instance : Inhabited Script := ⟨empty⟩

def node? (s : Script) (id : NodeId) : Option Node := s.nodes.find? fun n => n.id = id

def modifyFirst {α : Type} (test : α → Bool) (f : α → α) : List α → List α
  | [] => []
  | a :: rest => if test a then f a :: rest else a :: modifyFirst test f rest

def modifyNode (s : Script) (id : NodeId) (f : Node → Node) : Script :=
  { s with nodes := modifyFirst (fun n => n.id = id) f s.nodes }

def pin? (s : Script) (id : NodeId) (pin : String) (direction : Direction) : Option Pin :=
  (s.node? id).bind fun n => n.pin? pin direction

def modifyPin (s : Script) (id : NodeId) (pin : String) (direction : Direction)
    (f : Pin → Pin) : Script :=
  s.modifyNode id fun n => n.modifyPin pin direction f

def createNode (s : Script) (kind : NodeKind) : NodeId × Script :=
  (s.nextId,
    { s with nodes := s.nodes ++ [.ofKind s.nextId kind], nextId := s.nextId + 1 })

/-- The start of an authored rule: a result node that selects always, and an
entry without actions. -/
def withEntries : Script :=
  let (result, s) := empty.createNode .result
  let (pass, s) := s.createNode .onPass
  let s := s.modifyPin result Pin.select .input fun p => { p with defaultText := "true" }
  { s with resultId := some result, passId := some pass }

def resultNode? (s : Script) : Option Node :=
  (s.resultId.bind s.node?).filter fun n => n.kind = .result

def passNode? (s : Script) : Option Node :=
  (s.passId.bind s.node?).filter fun n => n.kind = .onPass

def isValid (s : Script) : Bool := s.resultNode?.isSome && s.passNode?.isSome

def hasEffect (s : Script) : Bool := s.nodes.any fun n => n.kind.isEffect

def hasEmission (s : Script) : Bool := s.nodes.any fun n => n.kind.isEmission

def setResult (s : Script) (id : NodeId) : Except ScriptError Script :=
  match s.node? id with
  | none => .error (.unknownNode id)
  | some _ => .ok { s with resultId := some id }

def setPass (s : Script) (id : NodeId) : Except ScriptError Script :=
  match s.node? id with
  | none => .error (.unknownNode id)
  | some _ => .ok { s with passId := some id }

/-- Gives a node another kind. Its pins stay. -/
def setKind (s : Script) (id : NodeId) (kind : NodeKind) : Script :=
  s.modifyNode id fun n => { n with kind }

def setDefault (s : Script) (id : NodeId) (pin text : String) : Except ScriptError Script :=
  match s.pin? id pin .input with
  | none => .error (.unknownPin id pin .input)
  | some _ => .ok (s.modifyPin id pin .input fun p => { p with defaultText := text })

def signalOf (s : Script) (id : NodeId) (pin : String) (direction : Direction) :
    Except ScriptError Signal :=
  match s.node? id with
  | none => .error (.unknownNode id)
  | some n =>
    match n.pin? pin direction with
    | none => .error (.unknownPin id pin direction)
    | some p => .ok p.signal

def setLink (s : Script) (id : NodeId) (pin : String) (direction : Direction)
    (link : Option Link) : Script :=
  s.modifyPin id pin direction fun p => { p with link }

/-- Breaks the link of a pin. The far pin is cleared if it points back. -/
def unlink (s : Script) (id : NodeId) (pin : String) (direction : Direction) : Script :=
  match (s.pin? id pin direction).bind (·.link) with
  | none => s
  | some link =>
    (s.setLink id pin direction none).modifyPin link.node link.pin direction.opposite
      fun far => if far.link = some ⟨id, pin⟩ then { far with link := none } else far

/-- Links an output to an input; both record the link. An output of actions has
one successor and a truth value input one source, so an earlier link of that
side is broken first. The other side remembers its latest link. -/
def link (s : Script) (source : NodeId) (output : String) (target : NodeId)
    (input : String) : Except ScriptError Script := do
  if source = target then throw (.selfLink source)
  let given ← s.signalOf source output .output
  let wanted ← s.signalOf target input .input
  if given ≠ wanted then throw (.signalMismatch given wanted)
  let s := match given with
    | .exec => s.unlink source output .output
    | .bool => s.unlink target input .input
  return (s.setLink source output .output (some ⟨target, input⟩)).setLink
    target input .input (some ⟨source, output⟩)

def source? (s : Script) (n : Node) (pin : String) : Option Node :=
  ((n.inputs.get? pin).bind (·.link)).bind fun l => s.node? l.node

def nextAction? (s : Script) (n : Node) : Option Node :=
  ((n.execOutput?.bind (·.link)).bind fun l => s.node? l.node).filter fun m =>
    m.kind.isAction

/-- Drops all nodes and both entries. Identifiers are not handed out again. -/
def clear (s : Script) : Script :=
  { s with nodes := [], resultId := none, passId := none }

end Script

end MarkerLattice
