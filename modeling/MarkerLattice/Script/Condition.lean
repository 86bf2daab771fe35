import MarkerLattice.Script.Walk

/-!
Conditions: a script graph unfolded from one of its nodes into an expression.
A node that is met again on its own path unfolds to `absent`, so unfolding ends
on every graph. The value and the text of a condition are read off the
expression.
-/
namespace MarkerLattice

inductive Condition where
  /-- Nothing to read: no such pin, a dead link, a node that is no condition, or
  a node on its own path. -/
  | absent
  | literal (value : Bool)
  | marker (name : String)
  | negation (operand : Condition)
  | conjunction (left right : Condition)
  | disjunction (left right : Condition)
  | selection (operand : Condition)
  /-- An operand that is written in parentheses. -/
  | grouped (operand : Condition)
deriving DecidableEq, Repr

namespace Condition

def holds (present : String → Bool) : Condition → Bool
  | absent => false
  | literal value => value
  | marker name => present name
  | negation c => !c.holds present
  | conjunction l r => l.holds present && r.holds present
  | disjunction l r => l.holds present || r.holds present
  | selection c | grouped c => c.holds present

/-- A marker name as text; the empty name has a mark of its own. -/
def nameText (name : String) : String := if name.isEmpty then "<NONE>" else name

/-- A condition as an infix expression. A result node writes its operand without
parentheses, and nothing for a default. -/
def text : Condition → String
  | absent => ""
  | literal value => if value then "True" else "False"
  | marker name => nameText name
  | negation c => "NOT " ++ c.text
  | conjunction l r => l.text ++ " AND " ++ r.text
  | disjunction l r => l.text ++ " OR " ++ r.text
  | selection (literal _) => ""
  | selection (grouped c) => c.text
  | selection c => c.text
  | grouped c => "(" ++ c.text ++ ")"

end Condition

namespace Script

mutual

/-- Unfolds a node, with the identifiers on the path to it. -/
def conditionAt (s : Script) (path : List NodeId) (n : Node) : Condition :=
  if fresh : n.id ∈ path then .absent
  else match n.kind with
    | .result => .selection (s.operandAt path n fresh Pin.select)
    | .logicalAnd =>
      .conjunction (s.operandAt path n fresh Pin.a) (s.operandAt path n fresh Pin.b)
    | .logicalOr =>
      .disjunction (s.operandAt path n fresh Pin.a) (s.operandAt path n fresh Pin.b)
    | .logicalNot => .negation (s.operandAt path n fresh Pin.defaultInput)
    | .markerExists name => .marker name
    | .onPass | .emitMarker _ | .removeMarker _ => .absent
termination_by (s.room path n, 1)

def operandAt (s : Script) (path : List NodeId) (n : Node) (fresh : n.id ∉ path)
    (pin : String) : Condition :=
  match n.inputs.get? pin with
  | none => .absent
  | some p =>
    match p.link with
    | none => .literal p.defaultBool
    | some l =>
      match h : s.node? l.node with
      | none => .absent
      | some m =>
        have := room_lt fresh (mem_of_node? h)
        if m.kind.isConditional then
          let c := s.conditionAt (n.id :: path) m
          if m.isBinary then .grouped c else c
        else .absent
termination_by (s.room path n, 0)

end

def condition (s : Script) (n : Node) : Condition := s.conditionAt [] n

/-- The condition of the whole script. Without both entries it never holds. -/
def selection (s : Script) : Condition :=
  if s.isValid then (s.resultNode?.map s.condition).getD .absent else .absent

end Script

end MarkerLattice
