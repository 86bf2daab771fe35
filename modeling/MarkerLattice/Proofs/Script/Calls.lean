import Mathlib
import MarkerLattice.Proofs.Script.Unfold

/-! Conditions by recursive calls that keep the identifiers of the active nodes on one
path. On every graph the calls end before they nest deeper than the script has
identifiers, leave the path as it was, and give the value and the text of the unfolded
condition. -/
namespace MarkerLattice

/-- What runs with a path of active nodes. Calls that nest too deeply give nothing. -/
abbrev Calls (α : Type) := StateT (List NodeId) Option α

namespace Calls

variable {α β : Type} {x : Calls α} {f : α → Calls β} {path : List NodeId} {a : α} {b : β}

def Returns (x : Calls α) (path : List NodeId) (a : α) : Prop := x path = some (a, path)

theorem returns_pure (a : α) (path : List NodeId) : Returns (pure a) path a := rfl

theorem Returns.bind (hx : x.Returns path a) (hf : (f a).Returns path b) :
    Returns (x >>= f) path b := by
  unfold Returns at hx
  simp only [Returns, Bind.bind, StateT.bind, hx, Option.bind_some]
  exact hf

/-- A call for a node: an active node answers `stuck`, any other is active while its
body runs. No more than `limit` calls may be nested. -/
def nested (stuck : α) (body : (Node → Calls α) → Node → Calls α) : Nat → Node → Calls α
  | 0, _ => fun _ => none
  | limit + 1, n => do
    if n.id ∈ (← get) then return stuck
    modify (n.id :: ·)
    let a ← body (nested stuck body limit) n
    modify List.tail
    return a

variable {stuck : α} {body : (Node → Calls α) → Node → Calls α} {limit : Nat} {n : Node}

theorem nested_active (active : n.id ∈ path) :
    (nested stuck body (limit + 1) n).Returns path stuck := by
  simp only [nested, Returns, Bind.bind, StateT.bind, get, getThe, MonadStateOf.get, StateT.get,
    Option.pure_def, Option.bind_some, if_pos active]
  rfl

theorem nested_fresh (fresh : n.id ∉ path)
    (returns : (body (nested stuck body limit) n).Returns (n.id :: path) a) :
    (nested stuck body (limit + 1) n).Returns path a := by
  unfold Returns at returns
  simp only [nested, Returns, Bind.bind, StateT.bind, get, getThe, MonadStateOf.get, StateT.get,
    modify, modifyGet, MonadStateOf.modifyGet, StateT.modifyGet, Option.pure_def,
    Option.bind_some, if_neg fresh, returns]
  rfl

end Calls

namespace Script

open Calls

section Walkers

variable (s : Script)

def inputValue (call : Node → Calls Bool) (n : Node) (pin : String) : Calls Bool :=
  match n.inputs.get? pin with
  | none => return false
  | some p =>
    match p.link with
    | none => return p.defaultBool
    | some l =>
      match s.node? l.node with
      | some m => if m.kind.isConditional then call m else return false
      | none => return false

/-- The value of a node. Unless both operands are always asked for, the left one may
settle a junction alone. -/
def valueOf (present : String → Bool) (both : Bool) (call : Node → Calls Bool) (n : Node) :
    Calls Bool :=
  match n.kind with
  | .result => s.inputValue call n Pin.select
  | .logicalAnd => do
    let left ← s.inputValue call n Pin.a
    if !left && !both then return false
    let right ← s.inputValue call n Pin.b
    return left && right
  | .logicalOr => do
    let left ← s.inputValue call n Pin.a
    if left && !both then return true
    let right ← s.inputValue call n Pin.b
    return left || right
  | .logicalNot => return !(← s.inputValue call n Pin.defaultInput)
  | .markerExists name => return present name
  | .onPass | .emitMarker _ | .removeMarker _ => return false

def evaluate (present : String → Bool) (both : Bool) : Nat → Node → Calls Bool :=
  nested false (s.valueOf present both)

def pinText (call : Node → Calls String) (n : Node) (pin : String) (parentheses : Bool) :
    Calls String :=
  match n.inputs.get? pin with
  | none => return ""
  | some p =>
    if p.link.isNone then return if p.defaultBool then "True" else "False"
    else match s.source? n pin with
      | some m =>
        if m.kind.isConditional then do
          let text ← call m
          return if parentheses && m.isBinary then "(" ++ text ++ ")" else text
        else return ""
      | none => return ""

def textOf (call : Node → Calls String) (n : Node) : Calls String :=
  match n.kind with
  | .result =>
    if (s.source? n Pin.select).any fun m => m.kind.isConditional then
      s.pinText call n Pin.select false
    else return ""
  | .logicalAnd => do
    let left ← s.pinText call n Pin.a true
    let right ← s.pinText call n Pin.b true
    return left ++ " AND " ++ right
  | .logicalOr => do
    let left ← s.pinText call n Pin.a true
    let right ← s.pinText call n Pin.b true
    return left ++ " OR " ++ right
  | .logicalNot => return "NOT " ++ (← s.pinText call n Pin.defaultInput true)
  | .markerExists name => return Condition.nameText name
  | .onPass | .emitMarker _ | .removeMarker _ => return ""

def writeText : Nat → Node → Calls String := nested "" s.textOf

end Walkers

variable {s : Script} {present : String → Bool} {both : Bool} {n : Node} {path : List NodeId}

theorem inputValue_eq (call : Node → Calls Bool) (n : Node) (pin : String) :
    s.inputValue call n pin =
      match s.reading n pin with
      | .nothing => pure false
      | .default p => pure p.defaultBool
      | .source m => call m := by
  have looks := s.looks_reading n pin
  generalize s.reading n pin = r at looks
  cases looks <;> simp [inputValue, *]

theorem pinText_eq (call : Node → Calls String) (n : Node) (pin : String) (parentheses : Bool) :
    s.pinText call n pin parentheses =
      match s.reading n pin with
      | .nothing => pure ""
      | .default p => pure (if p.defaultBool then "True" else "False")
      | .source m => do
        let text ← call m
        return if parentheses && m.isBinary then "(" ++ text ++ ")" else text := by
  have looks := s.looks_reading n pin
  generalize s.reading n pin = r at looks
  cases looks <;> simp [pinText, source?, *]

theorem textOf_result (write : Node → Calls String) (result : n.kind = .result) :
    s.textOf write n =
      match s.reading n Pin.select with
      | .nothing | .default _ => pure ""
      | .source m => write m := by
  have looks := s.looks_reading n Pin.select
  rw [textOf, result]
  dsimp only
  rw [pinText_eq]
  generalize s.reading n Pin.select = r at looks
  cases looks <;> simp [source?, *]

section Bodies

variable {call : Node → Calls Bool} {write : Node → Calls String} {f : Node → Condition}

theorem inputValue_returns
    (returns : ∀ m, s.Reads n m → (call m).Returns path ((f m).holds present)) (pin : String) :
    (s.inputValue call n pin).Returns path ((s.operand f n pin).holds present) := by
  rw [inputValue_eq, operand]
  cases read : s.reading n pin with
  | nothing => exact returns_pure _ _
  | default p => exact returns_pure _ _
  | source m =>
    have here := returns m (reads_of_reading read)
    dsimp only
    split <;> exact here

theorem valueOf_returns (both : Bool)
    (returns : ∀ m, s.Reads n m → (call m).Returns path ((f m).holds present)) :
    (s.valueOf present both call n).Returns path ((s.layer f n).holds present) := by
  have input := inputValue_returns returns
  unfold valueOf layer
  cases n.kind with
  | result => exact input Pin.select
  | logicalAnd =>
    refine (input Pin.a).bind ?_
    rw [Condition.holds]
    cases (s.operand f n Pin.a).holds present
    case true => exact (input Pin.b).bind (returns_pure _ _)
    case false =>
      cases both
      case true => exact (input Pin.b).bind (returns_pure _ _)
      case false => exact returns_pure _ _
  | logicalOr =>
    refine (input Pin.a).bind ?_
    rw [Condition.holds]
    cases (s.operand f n Pin.a).holds present
    case false => exact (input Pin.b).bind (returns_pure _ _)
    case true =>
      cases both
      case true => exact (input Pin.b).bind (returns_pure _ _)
      case false => exact returns_pure _ _
  | logicalNot => exact (input Pin.defaultInput).bind (returns_pure _ _)
  | markerExists name | onPass | emitMarker e | removeMarker name => exact returns_pure _ _

theorem pinText_returns (returns : ∀ m, s.Reads n m → (write m).Returns path (f m).text)
    (pin : String) : (s.pinText write n pin true).Returns path (s.operand f n pin).text := by
  rw [pinText_eq, operand]
  cases read : s.reading n pin with
  | nothing => exact returns_pure _ _
  | default p => exact returns_pure _ _
  | source m =>
    refine (returns m (reads_of_reading read)).bind ?_
    dsimp only
    cases m.isBinary <;> exact returns_pure _ _

theorem textOf_returns (returns : ∀ m, s.Reads n m → (write m).Returns path (f m).text)
    (plain : ∀ m, (Condition.selection (f m)).text = (f m).text) :
    (s.textOf write n).Returns path (s.layer f n).text := by
  have input := pinText_returns returns
  cases kind : n.kind with
  | result =>
    rw [textOf_result write kind, layer, kind]
    dsimp only
    rw [operand]
    cases read : s.reading n Pin.select with
    | nothing => exact returns_pure _ _
    | default p => exact returns_pure _ _
    | source m =>
      have here := returns m (reads_of_reading read)
      dsimp only
      cases m.isBinary
      case true => exact here
      case false => rwa [← plain] at here
  | logicalAnd =>
    rw [textOf, layer, kind]
    exact (input Pin.a).bind ((input Pin.b).bind (returns_pure _ _))
  | logicalOr =>
    rw [textOf, layer, kind]
    exact (input Pin.a).bind ((input Pin.b).bind (returns_pure _ _))
  | logicalNot =>
    rw [textOf, layer, kind]
    exact (input Pin.defaultInput).bind (returns_pure _ _)
  | markerExists name | onPass | emitMarker e | removeMarker name =>
    rw [textOf, layer, kind]
    exact returns_pure _ _

end Bodies

def ids (s : Script) : Finset NodeId := (s.nodes.map Node.id).toFinset

theorem mem_ids (hn : n ∈ s.nodes) : n.id ∈ s.ids :=
  List.mem_toFinset.mpr (List.mem_map_of_mem hn)

theorem card_left_lt {m : Node} (fresh : n.id ∉ path) (hm : m ∈ s.nodes) :
    (insert m.id s.ids \ (n.id :: path).toFinset).card <
      (insert n.id s.ids \ path.toFinset).card := by
  rw [Finset.insert_eq_self.mpr (mem_ids hm)]
  have here : n.id ∈ insert n.id s.ids \ path.toFinset := by simp [fresh]
  have less : s.ids \ (n.id :: path).toFinset ⊆
      (insert n.id s.ids \ path.toFinset).erase n.id := by
    intro id
    simp only [Finset.mem_sdiff, Finset.mem_erase, Finset.mem_insert, List.toFinset_cons]
    tauto
  exact (Finset.card_le_card less).trans_lt (Finset.card_erase_lt_of_mem here)

/-- Nested calls that do right by one layer do right by a whole condition, and they
need no more than one call for each identifier that is left and one that finds a node
active. -/
theorem nested_returns {α : Type} {stuck : α} {body : (Node → Calls α) → Node → Calls α}
    (read : Condition → α) (absent : read .absent = stuck)
    (step : ∀ call n path,
      (∀ m, s.Reads n m → (call m).Returns path (read (s.conditionAt path m))) →
      (body call n).Returns path (read (s.layer (s.conditionAt path) n)))
    {limit : Nat} (enough : (insert n.id s.ids \ path.toFinset).card < limit) :
    (nested stuck body limit n).Returns path (read (s.conditionAt path n)) := by
  induction limit generalizing n path with
  | zero => omega
  | succ limit ih =>
    rw [conditionAt_eq]
    by_cases fresh : n.id ∈ path
    · rw [if_pos fresh, absent]
      exact nested_active fresh
    · rw [if_neg fresh]
      apply nested_fresh fresh
      apply step
      intro m reads
      have less := card_left_lt fresh reads.mem
      exact ih (by omega)

theorem text_selection_conditionAt (path : List NodeId) (n : Node) :
    (Condition.selection (s.conditionAt path n)).text = (s.conditionAt path n).text := by
  rw [conditionAt_eq]
  split
  · rfl
  · exact text_selection_layer _ n

/-- With so many nested calls the node has a value and a text, those of its condition,
whether or not every operand is asked for, and leaves the path as it was. -/
structure Ends (s : Script) (calls : Nat) (n : Node) : Prop where
  value : ∀ present path both, (s.evaluate present both calls n).Returns path
    ((s.conditionAt path n).holds present)
  text : ∀ path, (s.writeText calls n).Returns path (s.conditionAt path n).text

theorem ends_of_card_lt {calls : Nat} (enough : (insert n.id s.ids).card < calls) :
    s.Ends calls n := by
  have left (path : List NodeId) : (insert n.id s.ids \ path.toFinset).card < calls :=
    (Finset.card_le_card Finset.sdiff_subset).trans_lt enough
  constructor
  case value =>
    intro present path both
    exact nested_returns (Condition.holds present) rfl
      (fun call n path returns => valueOf_returns both returns) (left path)
  case text =>
    intro path
    exact nested_returns Condition.text rfl
      (fun call n path returns => textOf_returns returns (text_selection_conditionAt path))
      (left path)

/-- However malformed the script, the calls for a node end. One of its own nodes takes
at most one nested call for each identifier and one more, a node from outside another
one for itself. -/
theorem ends_calls (s : Script) :
    (∀ n ∈ s.nodes, s.Ends (s.ids.card + 1) n) ∧ ∀ n, s.Ends (s.ids.card + 2) n := by
  constructor
  · intro n hn
    apply ends_of_card_lt
    rw [Finset.insert_eq_self.mpr (mem_ids hn)]
    exact Nat.lt_succ_self _
  · intro n
    apply ends_of_card_lt
    have := s.ids.card_insert_le n.id
    omega

def tangled : Script :=
  { nodes :=
      [(Node.ofKind 0 .result).linkedTo Pin.select .input ⟨1, Pin.defaultOutput⟩,
        ((Node.ofKind 1 .logicalAnd).linkedTo Pin.a .input ⟨1, Pin.defaultOutput⟩).linkedTo
          Pin.b .input ⟨2, Pin.defaultOutput⟩,
        (Node.ofKind 1 .logicalNot).linkedTo Pin.defaultInput .input ⟨2, Pin.defaultOutput⟩,
        ((Node.ofKind 2 .logicalOr).linkedTo Pin.a .input ⟨0, Pin.defaultOutput⟩).linkedTo
          Pin.b .input ⟨9, Pin.defaultOutput⟩]
    nextId := 3, resultId := some 0, passId := none }

theorem ends_calls_tangled : tangled.ids.card = 3 ∧
    (∃ n ∈ tangled.nodes, n.kind = .logicalNot ∧ tangled.Ends 4 n) ∧
    tangled.Ends 5 (.ofKind 7 .logicalAnd) := by
  have card : tangled.ids.card = 3 := by decide +kernel
  have negation : ∃ n ∈ tangled.nodes, n.kind = .logicalNot := by decide +kernel
  obtain ⟨own, any⟩ := ends_calls tangled
  rw [card] at own any
  obtain ⟨n, hn, kind⟩ := negation
  exact ⟨card, ⟨n, hn, kind, own n hn⟩, any _⟩

example : ∃ n ∈ tangled.nodes, tangled.evaluate (fun _ => true) false 3 n [] = none ∧
    tangled.evaluate (fun _ => true) false 4 n [] = some (true, []) := by
  decide +kernel

end Script

end MarkerLattice
