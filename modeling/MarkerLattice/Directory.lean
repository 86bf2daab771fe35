import MarkerLattice.Bytes
import MarkerLattice.NameMap

/-!
Files, found and written by path, and a store that is one directory. The
directory has no directories in it and is its own parent.
-/
namespace MarkerLattice

inductive FileFault where
  | notFound
  | unexpectedEnd
  | isDirectory
  | notDirectory
  | refused
deriving DecidableEq, Repr

inductive FileEntry where
  | file (contents : Bytes)
  | directory
deriving DecidableEq

abbrev FileSearch := String → Except FileFault FileEntry

/-- Where files are kept. A write is all or nothing: it leads to a state with the whole
file, or fails and leaves the store as it was. A store that empties the file first and may
fail behind that is none of these. -/
class FileStore (σ : Type) where
  find : σ → FileSearch
  write : σ → String → Bytes → Except FileFault σ

structure Directory where
  files : NameMap Bytes

namespace Directory

def empty : Directory := ⟨.empty⟩

def isDots (name : List Char) : Bool := name = ['.'] || name = ['.', '.']

/-- The names between the slashes of a path. Empty ones and dots in front lead
nowhere else. -/
def steps (path : String) : List String :=
  (((path.toList.splitOn '/').filter (· ≠ [])).dropWhile isDots).map String.ofList

def endsInSlash (path : String) : Bool := path.toList.getLast? = some '/'

def find (d : Directory) : FileSearch := fun path =>
  match steps path with
  | [] => if path = "" then .error .notFound else .ok .directory
  | [name] =>
    match d.files.get? name with
    | none => .error .notFound
    | some contents =>
      if endsInSlash path then .error .notDirectory else .ok (.file contents)
  | name :: _ =>
    .error (if (d.files.get? name).isSome then .notDirectory else .notFound)

def write (d : Directory) (path : String) (contents : Bytes) :
    Except FileFault Directory :=
  match steps path with
  | [] => .error (if path = "" then .notFound else .isDirectory)
  | [name] =>
    if endsInSlash path then .error .isDirectory
    else .ok ⟨d.files.insert name contents⟩
  | name :: _ =>
    .error (if (d.files.get? name).isSome then .notDirectory else .notFound)

instance : FileStore Directory := ⟨find, write⟩

end Directory

end MarkerLattice
