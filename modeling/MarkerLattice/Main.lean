import MarkerLattice.Command

/-!
The program: its words, files and streams. What it does is worked out by
`Options.report`.
-/
namespace MarkerLattice.Program

/-- The numbers of the system for what is no directory and what is one. -/
def faultOf : IO.Error → FileFault
  | .noFileOrDirectory .. => .notFound
  | .inappropriateType _ 20 _ => .notDirectory
  | .inappropriateType _ 21 _ => .isDirectory
  | .unexpectedEof => .unexpectedEnd
  | _ => .refused

def search (path : String) : IO (Except FileFault FileEntry) := do
  try return .ok (.file (← IO.FS.readBinFile path).toList)
  catch e =>
    match faultOf e with
    | .isDirectory => return .ok .directory
    | fault => return .error fault

def printBytes (b : Bytes) : IO Unit := do
  (← IO.getStdout).write ⟨b.toArray⟩

/-- A buffer that cannot be had ends the program in another way than an error. -/
def exitCode : CommandError → UInt32
  | .loadingModel _ .oversized => 101
  | _ => 1

def fail (e : CommandError) : IO UInt32 := do
  IO.eprintln ("Error: " ++ e.message)
  return exitCode e

def run (options : Options) : IO UInt32 := do
  let paths := options.model :: options.markers?.toList
  let found ← paths.mapM fun path => return (path, ← search path)
  match options.report fun path => (found.lookup path).getD (.error .notFound) with
  | .error e => fail e
  | .ok report =>
    printBytes report.output
    match report.file? with
    | none => return 0
    | some (path, contents) =>
      try
        IO.FS.writeBinFile path ⟨contents.toArray⟩
        return 0
      catch e => fail (.writingMarkers path (faultOf e))

end MarkerLattice.Program

open MarkerLattice in
def main (words : List String) : IO UInt32 := do
  match Options.ofWords words with
  | .ok options => Program.run options
  | .error halt =>
    Program.printBytes (Bytes.ofString halt.output)
    if halt = .refused then IO.eprintln CommandHalt.usage
    return UInt32.ofNat halt.code
