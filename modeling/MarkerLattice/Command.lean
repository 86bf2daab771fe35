import MarkerLattice.Command.Options
import MarkerLattice.Job
import MarkerLattice.ModelFile
import MarkerLattice.Script.Condition

/-!
The command: it runs a model over the markers of a grid dungeon or describes
the rules of a model. Everything is worked out before the only file is written.
-/
namespace MarkerLattice

inductive CommandError where
  | loadingModel (path : String) (cause : StorageError)
  | loadingMarkers (path : String) (cause : StorageError)
  | cellSizeCount (count : Nat)
  | engineSeed (seed : Int)
  | standardSeed (seed : Int)
  | noMarkers
  | noResult
  | writingMarkers (path : String) (cause : FileFault)
deriving DecidableEq

def CommandError.message : CommandError → String
  | loadingModel path _ => "loading model " ++ path
  | loadingMarkers path _ => "loading markers " ++ path
  | cellSizeCount n => "--cell-size expects three values, got " ++ toString n
  | engineSeed n => "--seed " ++ toString n ++ " does not fit the engine stream"
  | standardSeed n => "--seed " ++ toString n ++ " must not be negative"
  | noMarkers => "a marker list is required to run the model"
  | noResult => "marker generation produced no result"
  | writingMarkers path _ => "writing markers " ++ path

def Layer.describe (l : Layer) : List String :=
  ("layer '" ++ l.name ++ "'") :: ((l.pattern.map Pattern.rules).getD []).map fun r =>
    let text := (r.script.resultNode?.map fun n => (r.script.condition n).text).getD ""
    "  [" ++ toString r.offset.x.toInt ++ ", " ++ toString r.offset.y.toInt ++ "] " ++
      r.part.name ++ ": " ++ text

def Model.describe (m : Model) : String :=
  String.join ((m.layers.flatMap Layer.describe).map (· ++ "\n"))

structure CommandReport where
  output : Bytes
  file? : Option (String × Bytes)
deriving DecidableEq

namespace Options

def random (o : Options) : Except CommandError RandomSource :=
  if o.engine then
    if Int32.minValue.toInt ≤ o.seed && o.seed ≤ Int32.maxValue.toInt then
      .ok (.engine (UInt32.ofInt o.seed))
    else .error (.engineSeed o.seed)
  else if 0 ≤ o.seed then .ok (.standard (UInt64.ofInt o.seed))
  else .error (.standardSeed o.seed)

def gridCellSize (o : Options) : Except CommandError (Vec3 Binary32) :=
  match o.cellSize with
  | [x, y, z] => .ok ⟨x, y, z⟩
  | l => .error (.cellSizeCount l.length)

def runModel (o : Options) (find : FileSearch) (model : Model) :
    Except CommandError (List Marker) := do
  let some path := o.markers? | .error .noMarkers
  let markers ← (MarkerFile.load find path).mapError (.loadingMarkers path)
  let cellSize ← o.gridCellSize
  let random ← o.random
  let job : Job :=
    { label := path, model, dungeon := .grid cellSize, pose := .identity, markers, random }
  let (results, _) := (JobQueue.empty.push job).update.take
  let some result := results.head? | .error .noResult
  return result.markers

def report (o : Options) (find : FileSearch) : Except CommandError CommandReport := do
  let model ← (ModelFile.load find o.model).mapError (.loadingModel o.model)
  if o.describe then return ⟨Bytes.ofString model.describe, none⟩
  let text := MarkerFile.contents (← o.runModel find model)
  return match o.out? with
    | some path => ⟨[], some (path, text)⟩
    | none => ⟨text ++ [10], none⟩

end Options

/-- What is done over a store of files until it is finished or an error ends it. What
was written by then stays. -/
abbrev Session (σ α : Type) : Type := ExceptT CommandError (StateM σ) α

variable {σ : Type} [FileStore σ]

def Session.write (path : String) (contents : Bytes) : Session σ Unit := do
  match FileStore.write (← get) path contents with
  | .ok d => set d
  | .error fault => throw (.writingMarkers path fault)

def CommandReport.deliver (r : CommandReport) : Session σ Bytes := do
  if let some (path, contents) := r.file? then Session.write path contents
  return r.output

namespace Options

def session (o : Options) : Session σ Bytes := do
  let r ← liftExcept (o.report (FileStore.find (← get)))
  r.deliver

def run (o : Options) (d : σ) : Except CommandError Bytes × σ := o.session.run.run d

end Options

end MarkerLattice
