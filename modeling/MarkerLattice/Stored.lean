import MarkerLattice.Json
import MarkerLattice.NameMap

/-!
Stored forms: how values are kept in files, as JSON and packed. A packed value
has a fixed layout, least significant byte first, and nothing between its
parts. Records and variants describe both forms of a type at once.
-/
namespace MarkerLattice

class Stored (α : Type) where
  toTree : α → JsonTree
  ofTree : JsonTree → Except JsonFault α
  pack : α → Bytes
  unpack? : Bytes → Option (α × Bytes)

namespace Stored

def unpackNat? (width : Nat) (b : Bytes) : Option (Nat × Bytes) :=
  (Bytes.split? width b).map fun (front, rest) => (Bytes.toNatLE front, rest)

def intWithin (lo hi : Int) : JsonTree → Except JsonFault Int
  | .number n =>
    match n.toInt? with
    | some i => if lo ≤ i && i ≤ hi then .ok i else .error .malformed
    | none => .error .malformed
  | _ => .error .malformed

instance : Stored Bool where
  toTree := .bool
  ofTree
    | .bool b => .ok b
    | _ => .error .malformed
  pack b := [if b then 1 else 0]
  unpack?
    | 0 :: rest => some (false, rest)
    | 1 :: rest => some (true, rest)
    | _ => none

instance : Stored UInt32 where
  toTree n := .number (.ofInt n.toNat)
  ofTree t := (intWithin 0 (UInt32.size - 1) t).map UInt32.ofInt
  pack n := Bytes.ofNatLE 4 n.toNat
  unpack? b := (unpackNat? 4 b).map fun (n, rest) => (UInt32.ofNat n, rest)

instance : Stored Int32 where
  toTree n := .number (.ofInt n.toInt)
  ofTree t := (intWithin Int32.minValue.toInt Int32.maxValue.toInt t).map Int32.ofInt
  pack n := Bytes.ofNatLE 4 n.toUInt32.toNat
  unpack? b := (unpackNat? 4 b).map fun (n, rest) => ((UInt32.ofNat n).toInt32, rest)

/-- Infinite numbers and NaNs have no JSON form but null, which is not read. -/
instance : Stored Binary32 where
  toTree x := ((JsonNumber.ofBinary32? x).map .number).getD .null
  ofTree
    | .number n =>
      match n.toBinary32? with
      | some x => .ok x
      | none => .error .malformed
    | _ => .error .malformed
  pack x := Bytes.ofNatLE 4 x.bits.toNat
  unpack? b := (unpackNat? 4 b).map fun (n, rest) => (⟨UInt32.ofNat n⟩, rest)

def textOf (raw : Bytes) : Except JsonFault String :=
  match JsonText.text? raw with
  | some s => .ok s
  | none => .error .malformed

instance : Stored String where
  toTree := .ofString
  ofTree
    | .string raw => textOf raw
    | _ => .error .malformed
  pack s := Bytes.ofNatLE 8 (Bytes.ofString s).length ++ Bytes.ofString s
  unpack? b := do
    let (n, b) ← unpackNat? 8 b
    let (front, rest) ← Bytes.split? n b
    return (← Bytes.text? front, rest)

variable {α : Type} [Stored α]

instance : Stored (Option α) where
  toTree
    | some a => toTree a
    | none => .null
  ofTree
    | .null => .ok none
    | t => (ofTree t).map some
  pack
    | some a => 1 :: pack a
    | none => [0]
  unpack?
    | 0 :: rest => some (none, rest)
    | 1 :: rest => (unpack? rest).map fun (a, rest) => (some a, rest)
    | _ => none

def unpackMany? {β : Type} (read : Bytes → Option (β × Bytes)) :
    Nat → Bytes → Option (List β × Bytes)
  | 0, b => some ([], b)
  | n + 1, b => do
    let (x, b) ← read b
    let (rest, b) ← unpackMany? read n b
    return (x :: rest, b)

def packList {β : Type} (write : β → Bytes) (l : List β) : Bytes :=
  Bytes.ofNatLE 8 l.length ++ l.flatMap write

def unpackList? {β : Type} (read : Bytes → Option (β × Bytes)) (b : Bytes) :
    Option (List β × Bytes) := do
  let (n, b) ← unpackNat? 8 b
  unpackMany? read n b

instance : Stored (List α) where
  toTree l := .array (l.map toTree) true
  ofTree
    | .array items closed => do
      let l ← items.mapM ofTree
      if closed then .ok l else .error .malformed
    | _ => .error .malformed
  pack := packList pack
  unpack? := unpackList? unpack?

/-- Reads the members of a map. A later one of the same name stays. -/
def mapOfMembers (m : NameMap α) : List (Bytes × JsonTree) → Except JsonFault (NameMap α)
  | [] => .ok m
  | (raw, tree) :: rest => do
    let name ← textOf raw
    let a ← ofTree tree
    mapOfMembers (m.insert name a) rest

def packEntry (e : String × α) : Bytes := pack e.1 ++ pack e.2

def unpackEntry? (b : Bytes) : Option ((String × α) × Bytes) := do
  let (name, b) ← unpack? b
  let (a, b) ← unpack? b
  return ((name, a), b)

instance : Stored (NameMap α) where
  toTree m := .object (m.entries.map fun e => (JsonText.escape e.1, toTree e.2)) true
  ofTree
    | .object members closed => do
      let m ← mapOfMembers .empty members
      if closed then .ok m else .error .malformed
    | _ => .error .malformed
  pack m := packList packEntry m.entries
  unpack? b := (unpackList? unpackEntry? b).map fun (l, rest) => (NameMap.ofList l, rest)

end Stored

structure Field (α : Type) where
  name : String
  isRequired : Bool
  toTree : α → JsonTree
  readTree : JsonTree → α → Except JsonFault α
  pack : α → Bytes
  unpackInto? : Bytes → α → Option (α × Bytes)

def Field.make {α β : Type} [Stored β] (isRequired : Bool) (name : String) (get : α → β)
    (set : β → α → α) : Field α where
  name := name
  isRequired := isRequired
  toTree a := Stored.toTree (get a)
  readTree t a := (Stored.ofTree t).map fun b => set b a
  pack a := Stored.pack (get a)
  unpackInto? bytes a := (Stored.unpack? bytes).map fun (b, rest) => (set b a, rest)

def Field.required {α β : Type} [Stored β] (name : String) (get : α → β)
    (set : β → α → α) : Field α :=
  .make true name get set

def Field.optional {α β : Type} [Stored β] (name : String) (get : α → β)
    (set : β → α → α) : Field α :=
  .make false name get set

/-- The stored forms of a record: its fields in order. As JSON it is an object,
or an array of its fields in order. -/
structure Record (α : Type) where
  start : α
  fields : List (Field α)
  /-- Whether an array may leave out fields at its end. -/
  mayStopEarly : Bool

namespace Record

variable {α : Type}

def toTree (r : Record α) (a : α) : JsonTree :=
  .object (r.fields.map fun f => (JsonText.escape f.name, f.toTree a)) true

/-- Reads members in order into `a`. Unknown names are passed over; a field that
was `seen` is not read again. -/
def readMembers (r : Record α) :
    List (Bytes × JsonTree) → List String → α → Except JsonFault (List String × α)
  | [], seen, a => .ok (seen, a)
  | (raw, tree) :: rest, seen, a => do
    let name ← Stored.textOf raw
    match r.fields.find? fun f => f.name = name with
    | none => readMembers r rest seen a
    | some f =>
      if name ∈ seen then .error (.duplicateField name)
      else readMembers r rest (name :: seen) (← f.readTree tree a)

def readItems : List (Field α) → List JsonTree → α →
    Except JsonFault (List (Field α) × List JsonTree × α)
  | f :: fields, t :: items, a => do readItems fields items (← f.readTree t a)
  | fields, items, a => .ok (fields, items, a)

def ofTree (r : Record α) : JsonTree → Except JsonFault α
  | .object members closed => do
    let (seen, a) ← r.readMembers members [] r.start
    if !closed then .error .malformed
    else match r.fields.find? fun f => f.isRequired && f.name ∉ seen with
      | some f => .error (.missingField f.name)
      | none => .ok a
  | .array items closed => do
    let (fields, items, a) ← readItems r.fields items r.start
    if closed && items.isEmpty && (fields.isEmpty || r.mayStopEarly) then .ok a
    else .error .malformed
  | _ => .error .malformed

def pack (r : Record α) (a : α) : Bytes := r.fields.flatMap fun f => f.pack a

def unpackFields? : List (Field α) → Bytes → α → Option (α × Bytes)
  | [], b, a => some (a, b)
  | f :: fields, b, a => do
    let (a, b) ← f.unpackInto? b a
    unpackFields? fields b a

def unpack? (r : Record α) (b : Bytes) : Option (α × Bytes) :=
  unpackFields? r.fields b r.start

abbrev stored (r : Record α) : Stored α := ⟨r.toTree, r.ofTree, r.pack, r.unpack?⟩

end Record

structure Variant (α : Type) where
  name : String
  isUnit : Bool
  toTree? : α → Option JsonTree
  ofTree : JsonTree → Except JsonFault α
  pack? : α → Option Bytes
  unpack? : Bytes → Option (α × Bytes)

namespace Variant

variable {α β : Type}

def unit [DecidableEq α] (name : String) (a : α) : Variant α where
  name := name
  isUnit := true
  toTree? b := if b = a then some .null else none
  ofTree
    | .null => .ok a
    | _ => .error .malformed
  pack? b := if b = a then some [] else none
  unpack? b := some (a, b)

def ofStored (s : Stored β) (name : String) (build : β → α) (view : α → Option β) :
    Variant α where
  name := name
  isUnit := false
  toTree? a := (view a).map s.toTree
  ofTree t := (s.ofTree t).map build
  pack? a := (view a).map s.pack
  unpack? b := (s.unpack? b).map fun (x, rest) => (build x, rest)

end Variant

/-- The stored forms of a type with several variants. As JSON a variant without
contents is its name, another one an object with its name and contents. Packed,
the place of the variant comes first. -/
structure Variants (α : Type) where
  list : List (Variant α)

namespace Variants

variable {α : Type}

def toTree (v : Variants α) (a : α) : JsonTree :=
  (v.list.findSome? fun x => (x.toTree? a).map fun t =>
    if x.isUnit then JsonTree.ofString x.name
    else .object [(JsonText.escape x.name, t)] true).getD .null

def named (v : Variants α) (raw : Bytes) : Except JsonFault (Variant α) := do
  let name ← Stored.textOf raw
  match v.list.find? fun x => x.name = name with
  | some x => .ok x
  | none => .error (.unknownVariant name (v.list.map Variant.name))

def ofTree (v : Variants α) : JsonTree → Except JsonFault α
  | .string raw => do
    let x ← v.named raw
    if x.isUnit then x.ofTree .null else .error .malformed
  | .object ((raw, t) :: rest) closed => do
    let x ← v.named raw
    let a ← x.ofTree t
    if closed && rest.isEmpty then .ok a else .error .malformed
  | _ => .error .malformed

def packFrom (a : α) : Nat → List (Variant α) → Bytes
  | _, [] => []
  | i, x :: rest =>
    match x.pack? a with
    | some b => Bytes.ofNatLE 4 i ++ b
    | none => packFrom a (i + 1) rest

def pack (v : Variants α) (a : α) : Bytes := packFrom a 0 v.list

def unpack? (v : Variants α) (b : Bytes) : Option (α × Bytes) := do
  let (i, b) ← Stored.unpackNat? 4 b
  let x ← v.list[i]?
  x.unpack? b

abbrev stored (v : Variants α) : Stored α := ⟨v.toTree, v.ofTree, v.pack, v.unpack?⟩

end Variants

end MarkerLattice
