import MarkerLattice.Lattice.Coord
import MarkerLattice.Script

/-!
Patterns: rule blocks on a local lattice, in the order in which they were
authored.
-/
namespace MarkerLattice

structure Offset where
  x : Int32
  y : Int32
deriving DecidableEq, Repr

def Offset.toCoord (o : Offset) : Coord := ⟨o.x.toInt, o.y.toInt⟩

structure Rule where
  offset : Offset
  part : SubCell
  script : Script
  /-- Matching the rule puts an asset on its slot, so that other matches of the
  layer should not put another one there. -/
  inserts : Bool
deriving DecidableEq

def Rule.fresh (offset : Offset) (part : SubCell) : Rule :=
  { offset, part, script := .withEntries, inserts := false }

def Rule.isAt (r : Rule) (offset : Offset) (part : SubCell) : Bool :=
  r.offset = offset && r.part = part

structure Pattern where
  rules : List Rule
deriving DecidableEq

namespace Pattern

def empty : Pattern := ⟨[]⟩

def rule? (p : Pattern) (offset : Offset) (part : SubCell) : Option Rule :=
  p.rules.find? fun r => r.isAt offset part

/-- The rule at a place, and the pattern with it. One that is there stays; if there
is none, a fresh one becomes the last. -/
def addRule (p : Pattern) (offset : Offset) (part : SubCell) : Rule × Pattern :=
  match p.rule? offset part with
  | some r => (r, p)
  | none => (.fresh offset part, ⟨p.rules ++ [.fresh offset part]⟩)

def modifyRule (p : Pattern) (offset : Offset) (part : SubCell) (f : Rule → Rule) :
    Pattern :=
  ⟨Script.modifyFirst (fun r => r.isAt offset part) f p.rules⟩

/-- Whether there was a rule at a place, and the pattern without it. -/
def removeRule (p : Pattern) (offset : Offset) (part : SubCell) : Bool × Pattern :=
  ((p.rule? offset part).isSome, ⟨p.rules.eraseP fun r => r.isAt offset part⟩)

def hasEffect (p : Pattern) : Bool := p.rules.any fun r => r.script.hasEffect

end Pattern

end MarkerLattice
