import MarkerLattice.NameMap

/-!
Pins: the named, typed connection points of script nodes, and the links that
they hold.
-/
namespace MarkerLattice

abbrev NodeId := UInt32

/-- What a pin carries: the value of a condition or the order of actions. -/
inductive Signal where
  | bool
  | exec
deriving DecidableEq, Repr

inductive Direction where
  | input
  | output
deriving DecidableEq, Repr

def Direction.opposite : Direction → Direction
  | input => output
  | output => input

inductive Constraint where
  | mandatory
  | optional
deriving DecidableEq, Repr

structure Link where
  node : NodeId
  pin : String
deriving DecidableEq, Repr

/-- A connection point. It links to at most one pin of the opposite direction,
and without a link an input reads its default text. -/
structure Pin where
  name : String
  signal : Signal
  direction : Direction
  constraint : Constraint
  defaultText : String
  link : Option Link
deriving DecidableEq, Repr

namespace Pin

def a : String := "A"
def b : String := "B"
def defaultInput : String := "DefaultInput"
def defaultOutput : String := "DefaultOutput"
def select : String := "Select"

def unlinked (name : String) (signal : Signal) (direction : Direction)
    (constraint : Constraint) : Pin :=
  { name, signal, direction, constraint, defaultText := "", link := none }

def isLinked (p : Pin) : Bool := p.link.isSome

/-- The default text as a truth value: `true` in any case of its letters. -/
def defaultBool (p : Pin) : Bool := p.defaultText.toLower == "true"

end Pin

end MarkerLattice
