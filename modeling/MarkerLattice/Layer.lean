import MarkerLattice.Pattern
import MarkerLattice.Lattice.Level

/-!
Layers: a pattern and the settings of one pass over a marker list, and models:
layers that run one after the other.
-/
namespace MarkerLattice

structure GridSettings where
  /-- The markers that have to sit at one level across a match. -/
  sameHeight : List String
  expand : Bool
  amount : Int32
  edgeMode : EdgeMode
deriving DecidableEq

namespace GridSettings

def standard : GridSettings :=
  { sameHeight := [], expand := false, amount := 0, edgeMode := .legacy }

def maxMargin : Int := 20

def margin (g : GridSettings) : Int :=
  if g.expand then max 0 (min g.amount.toInt maxMargin) else 0

end GridSettings

inductive LayerDomain where
  | grid (settings : GridSettings)
  /-- No settings for the lattice; lattice passes leave it out. -/
  | generic
deriving DecidableEq

structure Layer where
  name : String
  probability : Binary32
  rotate : Bool
  shuffle : Bool
  /-- Whether a match may insert where another match of the layer did. -/
  overlaps : Bool
  pattern : Option Pattern
  domain : LayerDomain
deriving DecidableEq

namespace Layer

def standard : Layer where
  name := "Layer"
  probability := .one
  rotate := true
  shuffle := true
  overlaps := false
  pattern := none
  domain := .grid .standard

def gridSettings? (l : Layer) : Option GridSettings :=
  match l.domain with
  | .grid g => some g
  | .generic => none

end Layer

structure Model where
  layers : List Layer
deriving DecidableEq

end MarkerLattice
