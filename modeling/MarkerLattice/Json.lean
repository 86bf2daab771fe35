import MarkerLattice.Json.Token

/-!
JSON values as trees. A tree holds a text up to the first place where it stops
being JSON, so that values are read in the order of the text and the first
problem decides. Strings and numbers are kept as written.
-/
namespace MarkerLattice

inductive JsonTree where
  | null
  | bool (value : Bool)
  | number (n : JsonNumber)
  | string (raw : Bytes)
  /-- Elements, and whether the closing bracket follows them. -/
  | array (items : List JsonTree) (closed : Bool)
  /-- Members, and whether the closing brace follows them. -/
  | object (members : List (Bytes × JsonTree)) (closed : Bool)
  /-- The text stops being JSON where a value should be. -/
  | cut
deriving Repr

/-- A container that is still open, latest element in front. -/
inductive JsonFrame where
  | array (items : List JsonTree)
  | object (members : List (Bytes × JsonTree))
  | member (members : List (Bytes × JsonTree)) (name : Bytes)
deriving Repr

inductive JsonNext where
  | value
  | firstItem
  | firstName
  | name
  | colon
  | separator
deriving DecidableEq, Repr

inductive JsonState where
  | reading (next : JsonNext) (frames : List JsonFrame)
  | done (tree : JsonTree)
  | trailing (tree : JsonTree)
  | broken (tree : JsonTree)
deriving Repr

namespace JsonState

def cutFrame (inner : Option JsonTree) : JsonFrame → JsonTree
  | .array items => .array (items.reverse ++ inner.toList) false
  | .object members => .object members.reverse false
  | .member members name => .object (members.reverse ++ [(name, inner.getD .cut)]) false

def cutAll : List JsonFrame → JsonTree
  | [] => .cut
  | frame :: outer => outer.foldl (fun tree f => cutFrame (some tree) f) (cutFrame none frame)

def finish (tree : JsonTree) : List JsonFrame → JsonState
  | [] => done tree
  | .array items :: outer => reading .separator (.array (tree :: items) :: outer)
  | .member members name :: outer =>
    reading .separator (.object ((name, tree) :: members) :: outer)
  | .object members :: outer => broken (cutAll (.object members :: outer))

def startValue (frames : List JsonFrame) : JsonToken → JsonState
  | .null => finish .null frames
  | .bool b => finish (.bool b) frames
  | .number n => finish (.number n) frames
  | .string raw => finish (.string raw) frames
  | .openBracket => reading .firstItem (.array [] :: frames)
  | .openBrace => reading .firstName (.object [] :: frames)
  | _ => broken (cutAll frames)

def close (frames : List JsonFrame) : JsonToken → JsonState
  | .closeBracket =>
    match frames with
    | .array items :: outer => finish (.array items.reverse true) outer
    | _ => broken (cutAll frames)
  | .closeBrace =>
    match frames with
    | .object members :: outer => finish (.object members.reverse true) outer
    | _ => broken (cutAll frames)
  | _ => broken (cutAll frames)

def startMember (frames : List JsonFrame) : JsonToken → JsonState
  | .string raw =>
    match frames with
    | .object members :: outer => reading .colon (.member members raw :: outer)
    | _ => broken (cutAll frames)
  | _ => broken (cutAll frames)

def separate (frames : List JsonFrame) (token : JsonToken) : JsonState :=
  match token, frames with
  | .comma, .array _ :: _ => reading .value frames
  | .comma, .object _ :: _ => reading .name frames
  | _, _ => close frames token

def step (state : JsonState) (token : JsonToken) : JsonState :=
  match state with
  | reading .value frames => startValue frames token
  | reading .firstItem frames =>
    if token = .closeBracket then close frames token else startValue frames token
  | reading .firstName frames =>
    if token = .closeBrace then close frames token else startMember frames token
  | reading .name frames => startMember frames token
  | reading .colon frames =>
    if token = .colon then reading .value frames else broken (cutAll frames)
  | reading .separator frames => separate frames token
  | done tree => trailing tree
  | trailing tree => trailing tree
  | broken tree => broken tree

def result : JsonState → JsonTree × Bool
  | reading _ frames => (cutAll frames, false)
  | done tree => (tree, false)
  | trailing tree => (tree, true)
  | broken tree => (tree, false)

end JsonState

namespace JsonTree

def ofBytes (b : Bytes) : JsonTree × Bool :=
  ((JsonToken.tokens b).foldl JsonState.step (.reading .value [])).result

def ofString (s : String) : JsonTree := .string (JsonText.escape s)

def newline (depth : Nat) : Bytes := 10 :: List.replicate (2 * depth) 32

def quoted (raw : Bytes) : Bytes := 34 :: raw ++ [34]

mutual

/-- A tree as text: every element on a line of its own, empty containers on
one. -/
def render (depth : Nat) : JsonTree → Bytes
  | null => [110, 117, 108, 108]
  | bool true => [116, 114, 117, 101]
  | bool false => [102, 97, 108, 115, 101]
  | number n => n.toBytes
  | string raw => quoted raw
  | array items closed =>
    91 :: renderItems (depth + 1) items ++
      (if items.isEmpty then [] else newline depth) ++ if closed then [93] else []
  | object members closed =>
    123 :: renderMembers (depth + 1) members ++
      (if members.isEmpty then [] else newline depth) ++ if closed then [125] else []
  | cut => []

def renderItems (depth : Nat) : List JsonTree → Bytes
  | [] => []
  | [item] => newline depth ++ item.render depth
  | item :: rest => newline depth ++ item.render depth ++ 44 :: renderItems depth rest

def renderMembers (depth : Nat) : List (Bytes × JsonTree) → Bytes
  | [] => []
  | [(name, tree)] => newline depth ++ quoted name ++ 58 :: 32 :: tree.render depth
  | (name, tree) :: rest =>
    newline depth ++ quoted name ++ 58 :: 32 :: tree.render depth ++
      44 :: renderMembers depth rest

end

def toBytes (tree : JsonTree) : Bytes := tree.render 0

end JsonTree

inductive JsonFault where
  /-- No JSON, or not of the expected form. -/
  | malformed
  | missingField (name : String)
  | duplicateField (name : String)
  | unknownVariant (name : String) (expected : List String)
deriving DecidableEq, Repr

namespace JsonFault

def inTicks (name : String) : String := "`" ++ name ++ "`"

def expectedText : List String → String
  | [name] => "expected " ++ inTicks name
  | [first, second] => "expected " ++ inTicks first ++ " or " ++ inTicks second
  | names => "expected one of " ++ ", ".intercalate (names.map inTicks)

def message? : JsonFault → Option String
  | malformed => none
  | missingField name => some ("missing field " ++ inTicks name)
  | duplicateField name => some ("duplicate field " ++ inTicks name)
  | unknownVariant name expected =>
    some ("unknown variant " ++ inTicks name ++ ", " ++ expectedText expected)

end JsonFault

end MarkerLattice
