import MarkerLattice.Emit

/-!
Executors: what a script sees of a scene and does to it. An executor stands on one
slot at a time. The levels are those of the scene as it was when the executor took
it over.
-/
namespace MarkerLattice

structure Executor where
  scene : Scene
  levels : Levels
  stance : Stance

namespace Executor

def ofScene (s : Scene) (mode : EdgeMode) : Executor := ⟨s, s.levels mode, .initial⟩

inductive Call where
  | stand (stance : Stance)
  | contains (name : String)
  | perform (effect : Effect)
deriving DecidableEq

def call (x : Executor) : Call → Option Bool × Executor
  | .stand stance => (none, { x with stance })
  | .contains name => (some (x.scene.contains x.stance.slot name), x)
  | .perform effect => (none, { x with scene := x.scene.perform x.levels x.stance effect })

def takeAll {σ : Type} (step : σ → Call → Option Bool × σ) (x : σ) : List Call → List Bool × σ
  | [] => ([], x)
  | c :: rest =>
    let (answer?, x) := step x c
    let (answers, x) := takeAll step x rest
    (answer?.toList ++ answers, x)

def run : Executor → List Call → List Bool × Executor := takeAll call

end Executor

end MarkerLattice
