import MarkerLattice.Pass
import MarkerLattice.Random.ChaCha
import MarkerLattice.Random.Congruential

/-!
Jobs: a model to be run over the markers of one dungeon, and the queue in which
jobs wait. Every job has a random stream of its own.
-/
namespace MarkerLattice

inductive Dungeon where
  | grid (cellSize : Vec3 Binary32)
  | gridFlow (cellSize : Vec3 Binary32)
  | simpleCity (cellSize : Vec2 Binary32)
  | floorPlan (cellSize : Vec3 Binary32)
  | unsupported
deriving DecidableEq

/-- What runs passes for a dungeon at a pose. A classic grid dungeon keeps only
the position, and a city has cells one unit high. -/
def Dungeon.processor? (d : Dungeon) (pose : Pose Binary32) : Option Processor :=
  match d with
  | .grid cellSize => some ⟨.ofPosition pose.position, cellSize⟩
  | .gridFlow cellSize | .floorPlan cellSize => some ⟨pose, cellSize⟩
  | .simpleCity cellSize => some ⟨pose, ⟨cellSize.x, cellSize.y, .one⟩⟩
  | .unsupported => none

inductive RandomSource where
  | standard (seed : UInt64)
  | engine (seed : UInt32)
deriving DecidableEq

structure Job where
  label : String
  model : Model
  dungeon : Dungeon
  pose : Pose Binary32
  markers : List Marker
  random : RandomSource

structure JobResult where
  label : String
  markers : List Marker
  /-- Whether the dungeon could run the model. If not, the markers are the ones
  that came in. -/
  supported : Bool

def Job.run (job : Job) : JobResult :=
  match job.dungeon.processor? job.pose with
  | none => { label := job.label, markers := job.markers, supported := false }
  | some d =>
    let markers := match job.random with
      | .standard seed => (d.apply job.model job.markers (ChaCha.ofSeed seed)).1
      | .engine seed => (d.apply job.model job.markers (Congruential.ofSeed seed)).1
    { label := job.label, markers, supported := true }

structure JobQueue where
  pending : List Job
  completed : List JobResult

namespace JobQueue

def empty : JobQueue := ⟨[], []⟩

def push (q : JobQueue) (job : Job) : JobQueue := { q with pending := q.pending ++ [job] }

def update (q : JobQueue) : JobQueue :=
  { pending := [], completed := q.completed ++ q.pending.map Job.run }

def take (q : JobQueue) : List JobResult × JobQueue :=
  (q.completed, { q with completed := [] })

end JobQueue

end MarkerLattice
