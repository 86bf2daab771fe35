import MarkerLattice.Random.ChaCha
import MarkerLattice.Random.Congruential
import MarkerLattice.Binary32.Decimal
import MarkerLattice.Script.Condition
import MarkerLattice.Script.Effect
import MarkerLattice.Lattice.Level
import MarkerLattice.Executor
import MarkerLattice.Job
import MarkerLattice.Json.Token
import MarkerLattice.Json
import MarkerLattice.Stored.Model
import MarkerLattice.Command
import MarkerLattice.Main
import MarkerLattice.Proofs.Lattice.Cells
import MarkerLattice.Proofs.Lattice.Flood
import MarkerLattice.Proofs.Lattice.Scene
import MarkerLattice.Proofs.Pass.Placement
import MarkerLattice.Proofs.Pass.Attempts
import MarkerLattice.Proofs.Binary32.Exact
import MarkerLattice.Proofs.Lattice.Identifier
import MarkerLattice.Proofs.Pass.Exclusive
import MarkerLattice.Proofs.Pass.Heights
import MarkerLattice.Proofs.Pass.Reorder
import MarkerLattice.Proofs.Script.Equations
import MarkerLattice.Proofs.Script.Graph
import MarkerLattice.Proofs.Script.Separation
import MarkerLattice.Proofs.Script.Succession
import MarkerLattice.Proofs.Script.Calls
import MarkerLattice.Proofs.Script.Text
import MarkerLattice.Proofs.Lattice.Listing
import MarkerLattice.Proofs.Pattern.Rigid
import MarkerLattice.Proofs.Pattern.Coverage
import MarkerLattice.Proofs.Binary32.Error
import MarkerLattice.Proofs.Lattice.RoundTrip
import MarkerLattice.Proofs.Stored.Model
import MarkerLattice.Proofs.ModelFile
import MarkerLattice.Proofs.Pass.Draws
import MarkerLattice.Proofs.Pass.Provenance
import MarkerLattice.Proofs.Pass.Commute
import MarkerLattice.Proofs.Random.Congruential
import MarkerLattice.Proofs.Lattice.Names
import MarkerLattice.Proofs.Pass.Turn
import MarkerLattice.Proofs.Executor
import MarkerLattice.Proofs.Pass.Slots
import MarkerLattice.Proofs.Exchange
import MarkerLattice.Proofs.Pass.Stack
import MarkerLattice.Proofs.Pass.Gate
import MarkerLattice.Proofs.Pass.Disjoint
import MarkerLattice.Proofs.Job
import MarkerLattice.Proofs.Lattice.Edges
import MarkerLattice.Proofs.Lattice.Single
import MarkerLattice.Proofs.Pass.Indices
import MarkerLattice.Proofs.Pass.Repeats
import MarkerLattice.Proofs.Pass.Storage
import MarkerLattice.Proofs.Random.Arrangement
import MarkerLattice.Proofs.Pass.Untouched
import MarkerLattice.Proofs.Pattern.Edits
import MarkerLattice.Proofs.Inspection
import MarkerLattice.Proofs.Stored.Partial
import MarkerLattice.Proofs.Command
import MarkerLattice.Proofs.Script.Inquiry
import MarkerLattice.Proofs.Random.Period
import MarkerLattice.Proofs.Random.Range
