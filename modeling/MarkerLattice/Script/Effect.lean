import MarkerLattice.Script.Walk

/-!
Effects: what the actions of a script do to the slot it runs on. The actions
form a chain behind the pass entry. A chain that loops ends before the first
node it would run again.
-/
namespace MarkerLattice

inductive Effect where
  | emit (emission : Emission)
  | remove (name : String)
deriving DecidableEq, Repr

namespace Node

def effect? (n : Node) : Option Effect :=
  match n.kind with
  | .emitMarker e => some (.emit e)
  | .removeMarker name => some (.remove name)
  | _ => none

def actionText (n : Node) : String :=
  let named (verb name : String) := verb ++ if name.isEmpty then "<NONE>" else name
  match n.kind with
  | .emitMarker e => named "ADD " e.name
  | .removeMarker name => named "DEL " name
  | _ => ""

end Node

namespace Script

def chainFrom (s : Script) (seen : List NodeId) (n : Node) : List Node :=
  if fresh : n.id ∈ seen then []
  else
    n :: match h : s.nextAction? n with
      | none => []
      | some m =>
        have := room_lt fresh (mem_of_nextAction? h)
        s.chainFrom (n.id :: seen) m
termination_by s.room seen n

def chain (s : Script) : List Node :=
  match s.passNode?.bind s.nextAction? with
  | none => []
  | some n => s.chainFrom [] n

def effects (s : Script) : List Effect := s.chain.filterMap Node.effect?

end Script

end MarkerLattice
