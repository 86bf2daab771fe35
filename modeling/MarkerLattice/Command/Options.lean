import MarkerLattice.Binary32.Numeral
import MarkerLattice.Geometry

/-!
What the words of a command line ask for.
-/
namespace MarkerLattice

structure Options where
  model : String
  markers? : Option String
  seed : Int
  /-- The path for the markers that come out; if there is none they are
  printed. -/
  out? : Option String
  engine : Bool
  cellSize : List Binary32
  describe : Bool
deriving DecidableEq

inductive CommandHalt where
  | refused
  | version
  | help
deriving DecidableEq, Repr

namespace CommandHalt

def usage : String := "Usage: dungeon_markergen [OPTIONS] <MODEL> [MARKERS]"

def helpText : String :=
  "Run a marker generation model over a marker list\n\n" ++ usage ++ "\n\n" ++
  "Arguments:\n" ++
  "  <MODEL>    Model file (`.json` or binary `.mkg`)\n" ++
  "  [MARKERS]  Marker list (JSON), required unless describing\n\n" ++
  "Options:\n" ++
  "  -s, --seed <SEED>            Seed for the random stream [default: 0]\n" ++
  "  -o, --out <OUT>              Output marker list, defaults to stdout\n" ++
  "      --engine-rng             Use the engine's random stream, seeded by 32 bits\n" ++
  "      --cell-size <CELL_SIZE>  Grid cell size as X,Y,Z [default: 400,400,200]\n" ++
  "      --describe               Print the selection rule of every pattern rule\n" ++
  "  -h, --help                   Print help\n" ++
  "  -V, --version                Print version\n"

def output : CommandHalt → String
  | refused => ""
  | version => "dungeon_markergen 0.1.0\n"
  | help => helpText

def code : CommandHalt → Nat
  | refused => 2
  | version | help => 0

end CommandHalt

namespace Options

inductive Setting where
  | seed
  | out
  | cellSize
deriving DecidableEq, Repr

inductive Flag where
  | engine
  | describe
deriving DecidableEq, Repr

inductive Word where
  | path (value : String)
  /-- All words behind it are paths. -/
  | stop
  | flag (f : Flag)
  | setting (s : Setting) (value? : Option String)
  | halt (h : CommandHalt)
deriving DecidableEq, Repr

namespace Word

def plain (w : Word) : Option String → Word
  | none => w
  | some _ => halt .refused

def ofName (name : String) (value? : Option String) : Word :=
  if name = "seed" then setting .seed value?
  else if name = "out" then setting .out value?
  else if name = "cell-size" then setting .cellSize value?
  else if name = "engine-rng" then plain (flag .engine) value?
  else if name = "describe" then plain (flag .describe) value?
  else if name = "version" then plain (halt .version) value?
  else if name = "help" then plain (halt .help) value?
  else halt .refused

def ofLong (cs : List Char) : Word :=
  let (name, value) := cs.span (· ≠ '=')
  ofName (String.ofList name) (value.tail?.map String.ofList)

def attached? : List Char → Option String
  | [] => none
  | '=' :: cs => some (String.ofList cs)
  | cs => some (String.ofList cs)

def ofLetter (letter : Char) (rest : List Char) : Word :=
  if letter = 's' then setting .seed (attached? rest)
  else if letter = 'o' then setting .out (attached? rest)
  else if letter = 'V' then halt .version
  else if letter = 'h' then halt .help
  else halt .refused

/-- A single dash is a path. -/
def ofString (word : String) : Word :=
  match word.toList with
  | ['-'] => path word
  | ['-', '-'] => stop
  | '-' :: '-' :: cs => ofLong cs
  | '-' :: letter :: cs => ofLetter letter cs
  | _ => path word

end Word

structure Given where
  model? : Option String
  markers? : Option String
  seed? : Option Int
  out? : Option String
  engine : Bool
  cellSize : List Binary32
  describe : Bool
deriving DecidableEq

namespace Given

def nothing : Given := ⟨none, none, none, none, false, [], false⟩

def addPath (g : Given) (value : String) : Except CommandHalt Given :=
  if value = "" then .error .refused
  else match g.model?, g.markers? with
    | none, _ => .ok { g with model? := some value }
    | some _, none => .ok { g with markers? := some value }
    | some _, some _ => .error .refused

def addFlag (g : Given) : Flag → Except CommandHalt Given
  | .engine => if g.engine then .error .refused else .ok { g with engine := true }
  | .describe => if g.describe then .error .refused else .ok { g with describe := true }

/-- A seed within 64 signed bits. -/
def seedOf? (value : String) : Option Int :=
  (Text.integer? value.toList).filter fun n =>
    Int64.minValue.toInt ≤ n && n ≤ Int64.maxValue.toInt

def numbersOf? (value : String) : Option (List Binary32) :=
  (value.splitOn ",").mapM Binary32.ofText?

/-- Sizes add up; the other settings are given once. -/
def addSetting (g : Given) (s : Setting) (value : String) : Except CommandHalt Given :=
  match s with
  | .seed =>
    match g.seed?, seedOf? value with
    | none, some n => .ok { g with seed? := some n }
    | _, _ => .error .refused
  | .out =>
    if value = "" || g.out?.isSome then .error .refused
    else .ok { g with out? := some value }
  | .cellSize =>
    match numbersOf? value with
    | some l => .ok { g with cellSize := g.cellSize ++ l }
    | none => .error .refused

end Given

/-- Whether a word of its own can be the value of a setting. What starts with a
dash is another option, unless it is a negative seed. -/
def Setting.takes (s : Setting) (word : String) : Bool :=
  s = .seed || word = "-" || word.toList.head? ≠ some '-'

def Given.read : Option Setting → Given → List String → Except CommandHalt Given
  | none, g, [] => .ok g
  | some _, _, [] => .error .refused
  | some s, g, word :: rest =>
    if s.takes word then do read none (← g.addSetting s word) rest
    else .error .refused
  | none, g, word :: rest =>
    match Word.ofString word with
    | .path value => do read none (← g.addPath value) rest
    | .stop => rest.foldlM addPath g
    | .flag f => do read none (← g.addFlag f) rest
    | .setting s none => read (some s) g rest
    | .setting s (some value) => do read none (← g.addSetting s value) rest
    | .halt h => .error h

def standardCellSize : List Binary32 := [.ofNat 400, .ofNat 400, .ofNat 200]

def Given.options (g : Given) : Except CommandHalt Options :=
  match g.model? with
  | none => .error .refused
  | some model =>
    if g.markers?.isNone && !g.describe then .error .refused
    else .ok {
      model
      markers? := g.markers?
      seed := g.seed?.getD 0
      out? := g.out?
      engine := g.engine
      cellSize := if g.cellSize.isEmpty then standardCellSize else g.cellSize
      describe := g.describe }

/-- Reads the words of a command line. The first word that asks for something
else or cannot be understood decides. -/
def ofWords (words : List String) : Except CommandHalt Options := do
  (← Given.read none .nothing words).options

end Options

end MarkerLattice
