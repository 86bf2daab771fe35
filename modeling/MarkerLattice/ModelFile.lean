import MarkerLattice.Directory
import MarkerLattice.Stored.Model
import MarkerLattice.Text.Lossy
import MarkerLattice.Text.Quoted

/-!
Model files and marker files. A model is kept as JSON under a name that ends in
`.json`, and packed under any other: a signature of eight bytes, the revision
of the layout in four, the length of the model in eight, and the model.
-/
namespace MarkerLattice

inductive StorageError where
  | file (fault : FileFault)
  | corrupt
  | json (fault : JsonFault)
  | foreign (signature : Bytes)
  | newer (revision : UInt32)
  /-- The model is to be longer than any buffer. No reader answers here: the program ends. -/
  | oversized
deriving DecidableEq

namespace ModelFile

def signature : Bytes := Bytes.ofString "MKGMODEL"

def revision : UInt32 := 1

/-- The most bytes that a buffer can hold. -/
def bufferLimit : Nat := 0x7fffffffffffffff

end ModelFile

namespace StorageError

def message? : StorageError → Option String
  | file _ | corrupt => none
  | oversized => some "capacity overflow"
  | json fault => fault.message?.map ("model json rejected: " ++ ·)
  | foreign signature => some
      ("not a marker generation model: header reads " ++ Text.quoted (Text.lossy signature))
  | newer revision => some
      ("model layout revision " ++ toString revision.toNat ++
        " is newer than supported revision " ++ toString ModelFile.revision.toNat)

def hasCause : StorageError → Bool
  | file _ | corrupt => true
  | json _ | foreign _ | newer _ | oversized => false

end StorageError

namespace ModelFile

inductive Format where
  | json
  | packed
deriving DecidableEq, Repr

/-- The format that a path asks for. The case of its letters does not
matter. -/
def Format.ofPath (path : String) : Format :=
  if ".json".toList.isSuffixOf (path.toList.map Char.toLower) then .json else .packed

def take (n : Nat) (b : Bytes) : Except StorageError (Bytes × Bytes) :=
  match Bytes.split? n b with
  | some r => .ok r
  | none => .error (.file .unexpectedEnd)

def readHeader (b : Bytes) : Except StorageError (UInt32 × Bytes) := do
  let (start, b) ← take signature.length b
  if start ≠ signature then .error (.foreign start)
  else
    let (number, b) ← take 4 b
    return (UInt32.ofNat (Bytes.toNatLE number), b)

def pack (m : Model) : Bytes :=
  let payload := Stored.pack m
  signature ++ Bytes.ofNatLE 4 revision.toNat ++ Bytes.ofNatLE 8 payload.length ++ payload

/-- Reads a packed file. What follows the model is not looked at. -/
def unpack (b : Bytes) : Except StorageError Model := do
  let (number, b) ← readHeader b
  if revision < number then .error (.newer number)
  else
    let (length, b) ← take 8 b
    if bufferLimit < Bytes.toNatLE length then .error .oversized
    else
      let (payload, _) ← take (Bytes.toNatLE length) b
      match Stored.unpack? payload with
      | some (m, _) => .ok m
      | none => .error .corrupt

def packedContents : Except FileFault FileEntry → Except StorageError Bytes
  | .ok (.file contents) => .ok contents
  | .ok .directory => .error (.file .isDirectory)
  | .error fault => .error (.file fault)

/-- Reads the JSON file at a path. A directory holds no JSON. -/
def readJson {α : Type} [Stored α] : Except FileFault FileEntry → Except StorageError α
  | .ok (.file contents) => (Stored.ofText contents).mapError .json
  | .ok .directory => .error (.json .malformed)
  | .error fault => .error (.file fault)

def Format.read (found : Except FileFault FileEntry) : Format → Except StorageError Model
  | json => readJson found
  | packed => do unpack (← packedContents found)

def Format.write (m : Model) : Format → Bytes
  | json => Stored.toText m
  | packed => pack m

structure Info where
  format : Format
  revision? : Option UInt32
  size : Nat
deriving DecidableEq, Repr

/-- Looks at a model file of a format. Of JSON files only the size is looked
at. -/
def Format.inspect (found : Except FileFault FileEntry) : Format → Except StorageError Info
  | json =>
    match found with
    | .ok (.file contents) => .ok ⟨json, none, contents.length⟩
    | .ok .directory => .ok ⟨json, none, 0⟩
    | .error fault => .error (.file fault)
  | packed => do
    let contents ← packedContents found
    let (number, _) ← readHeader contents
    return ⟨packed, some number, contents.length⟩

def load (find : FileSearch) (path : String) : Except StorageError Model :=
  (Format.ofPath path).read (find path)

def inspect (find : FileSearch) (path : String) : Except StorageError Info :=
  (Format.ofPath path).inspect (find path)

def contents (path : String) (m : Model) : Bytes := (Format.ofPath path).write m

end ModelFile

namespace MarkerFile

def load (find : FileSearch) (path : String) : Except StorageError (List Marker) :=
  ModelFile.readJson (find path)

def contents (markers : List Marker) : Bytes := Stored.toText markers

end MarkerFile

end MarkerLattice
