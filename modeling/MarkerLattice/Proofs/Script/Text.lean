import Mathlib
import MarkerLattice.Proofs.Script.Wiring
import MarkerLattice.Proofs.Script.Unfold
import MarkerLattice.Proofs.Script.Phrase

/-! Conditions as text. An operand is written as a term, in parentheses where it
joins two others, so the text of a condition has one phrase, and that phrase has
the value of the condition. -/
namespace MarkerLattice

namespace Condition

/-- The text of `c` is read as `tokens`, whatever stands behind it. -/
def Writes (c : Condition) (tokens : List Token) : Prop :=
  ∀ rest, Token.Stops rest → Token.ofText (c.text.toList ++ rest) = tokens ++ Token.ofText rest

def Termed (c : Condition) : Prop :=
  ∃ t : Term, c.Writes t.tokens ∧ ∀ present, t.holds present = c.holds present

def Phrased (c : Condition) : Prop :=
  ∃ p : Phrase, c.Writes p.tokens ∧ ∀ present, p.holds present = c.holds present

variable {c l r : Condition}

theorem termed_literal (value : Bool) : (literal value).Termed := by
  refine ⟨.literal value, fun rest stops => ?_, fun _ => rfl⟩
  cases value <;> exact Token.ofText_word (by decide) (by decide) stops

theorem termed_marker {name : String} (h : Token.IsName name) : (marker name).Termed := by
  refine ⟨.name ⟨name, h⟩, fun rest stops => ?_, fun _ => rfl⟩
  rw [text, nameText, if_neg (mt String.isEmpty_iff.mp h.1)]
  exact Token.ofText_word h.1 h.2.1 stops

theorem Termed.negation (h : c.Termed) : (Condition.negation c).Termed := by
  obtain ⟨t, writes, value⟩ := h
  refine ⟨.negation t, fun rest stops => ?_, fun present => congrArg (!·) (value present)⟩
  have spelled : (Condition.negation c).text.toList = "NOT".toList ++ ' ' :: c.text.toList := by
    simp [text]
  rw [spelled, List.append_assoc, List.cons_append,
    Token.ofText_word (by decide) (by decide) (Token.stops_space _), Token.ofText_space,
    writes rest stops]
  rfl

theorem Phrased.grouped (h : c.Phrased) : (Condition.grouped c).Termed := by
  obtain ⟨p, writes, value⟩ := h
  refine ⟨.group p, fun rest stops => ?_, value⟩
  have spelled : (Condition.grouped c).text.toList = '(' :: (c.text.toList ++ [')']) := by
    simp [text]
  rw [spelled, List.cons_append, List.append_assoc, List.singleton_append, Token.ofText_left,
    writes _ (Token.stops_right rest), Token.ofText_right]
  simp [Term.tokens]

theorem Termed.phrased (h : c.Termed) : c.Phrased := by
  obtain ⟨t, writes, value⟩ := h
  exact ⟨.single t, writes, value⟩

theorem Phrased.joined (k : Connective) (left : l.Termed) (right : r.Termed)
    (spelled : c.text.toList = l.text.toList ++ ' ' :: (k.word.toList ++ ' ' :: r.text.toList))
    (value : ∀ present, c.holds present = k.holds (l.holds present) (r.holds present)) :
    c.Phrased := by
  obtain ⟨tl, writesLeft, valueLeft⟩ := left
  obtain ⟨tr, writesRight, valueRight⟩ := right
  have nonempty : k.word ≠ "" := by cases k <;> decide
  have letters : k.word.toList.all Token.isLetter = true := by cases k <;> decide
  refine ⟨.joined k tl tr, fun rest stops => ?_, fun present => ?_⟩
  · rw [spelled, List.append_assoc, List.cons_append, writesLeft _ (Token.stops_space _),
      Token.ofText_space, List.append_assoc, List.cons_append,
      Token.ofText_word nonempty letters (Token.stops_space _), Token.ofText_space,
      writesRight rest stops]
    simp [Phrase.tokens]
  · rw [value, ← valueLeft, ← valueRight, Phrase.holds]

theorem Termed.conjunction (left : l.Termed) (right : r.Termed) :
    (Condition.conjunction l r).Phrased :=
  .joined .conjunction left right (by simp [text, Connective.word]) fun _ => rfl

theorem Termed.disjunction (left : l.Termed) (right : r.Termed) :
    (Condition.disjunction l r).Phrased :=
  .joined .disjunction left right (by simp [text, Connective.word]) fun _ => rfl

theorem Phrased.selection_grouped (h : c.Phrased) : (selection (.grouped c)).Phrased := h

theorem Phrased.selection (h : c.Phrased) (same : (selection c).text = c.text) :
    (selection c).Phrased := by
  obtain ⟨p, writes, value⟩ := h
  exact ⟨p, by rwa [Writes, same], value⟩

theorem Phrased.parses (h : c.Phrased) : ∃ p, Parses c.text p ∧ (∀ p', Parses c.text p' → p' = p) ∧
    ∀ present, p.holds present = c.holds present := by
  obtain ⟨p, writes, value⟩ := h
  have parses : Parses c.text p := by
    have read := writes [] (by simp [Token.Stops])
    simpa [Parses, Token.ofText] using read.symm
  exact ⟨p, parses, fun p' => parses.unique, value⟩

end Condition

namespace NodeKind

def isOperator : NodeKind → Bool
  | logicalAnd | logicalOr | logicalNot | markerExists _ => true
  | result | onPass | emitMarker _ | removeMarker _ => false

theorem isOperator_of_mem_pins {k : NodeKind} {p : Pin} (h : p ∈ k.pins .output)
    (bool : p.signal = .bool) : k.isOperator = true := by
  have all : ∀ p ∈ k.pins .output, p.signal = .bool → k.isOperator = true := by
    cases k <;> simp [pins, outputPins, Pin.unlinked, isOperator]
  exact all p h bool

theorem isConditional_of_isOperator {k : NodeKind} (h : k.isOperator = true) :
    k.isConditional = true := by
  cases k <;> first | rfl | cases h

end NodeKind

namespace Node

variable {n : Node}

theorem HasShape.isOperator {name : String} {p : Pin} (shape : n.HasShape n.kind)
    (h : n.pin? name .output = some p) (bool : p.signal = .bool) :
    n.kind.isOperator = true :=
  NodeKind.isOperator_of_mem_pins (shape.mem_pins h) bool

end Node

namespace Script

variable {s : Script} {n : Node}

/-- Every marker that a condition behind `n` asks for has a name. -/
def Named (s : Script) (n : Node) : Prop :=
  ∀ m name, s.Reaches n m → m.kind = .markerExists name → Token.IsName name

/-- What `n` is as an operand: a phrase of two terms, or a term. -/
def Written (s : Script) (n : Node) : Prop :=
  if n.isBinary then (s.condition n).Phrased else (s.condition n).Termed

theorem Written.phrased (h : s.Written n) : (s.condition n).Phrased := by
  unfold Written at h
  split at h
  · exact h
  · exact h.phrased

section Operand

variable (wired : s.Wired) (fitting : s.Fitting) (hn : s.node? n.id = some n)
include wired fitting hn

theorem reading_bool {pin : String} {p : Pin} (hp : n.pin? pin .input = some p)
    (bool : p.signal = .bool) :
    p.link = none ∧ s.reading n pin = .default p ∨
      ∃ m, s.reading n pin = .source m ∧ m.kind.isOperator = true := by
  have get : n.inputs.get? pin = some p := hp
  cases hl : p.link with
  | none => exact .inl ⟨rfl, by simp only [reading, get, hl]⟩
  | some l =>
    obtain ⟨m, hm, -, q, hq, signal⟩ := wired.linked hn hp hl
    have operator := (fitting _ m hm).isOperator hq (signal.trans bool)
    have conditional := NodeKind.isConditional_of_isOperator operator
    exact .inr ⟨m, by simp only [reading, get, hl, hm, conditional, if_true], operator⟩

theorem termed_operand {pin : String} {blank : Pin}
    (there : (n.kind.shape .input).lookup pin = some blank) (bool : blank.signal = .bool)
    (written : ∀ m, s.Reads n m → m.kind.isOperator = true → s.Written m) :
    (s.operand s.condition n pin).Termed := by
  obtain ⟨p, hp, rfl⟩ := (fitting _ n hn).pin? there
  rcases reading_bool wired fitting hn hp bool with ⟨-, read⟩ | ⟨m, read, operator⟩
  · rw [operand, read]
    exact Condition.termed_literal _
  · have wm := written m (reads_of_reading read) operator
    rw [operand, read]
    unfold Written at wm
    dsimp only
    split
    next binary => exact (by simpa [binary] using wm : (s.condition m).Phrased).grouped
    next unary => simpa [unary] using wm

end Operand

theorem Named.of_reads {m : Node} (h : s.Named n) (read : s.Reads n m) : s.Named m :=
  fun k name reach => h k name (.head read reach)

theorem written_of_acyclic (wired : s.Wired) (fitting : s.Fitting) (acyclic : s.Acyclic n)
    (hn : s.node? n.id = some n) (named : s.Named n) (operator : n.kind.isOperator = true) :
    s.Written n := by
  refine Acyclic.induction (P := fun n => s.node? n.id = some n → s.Named n →
    n.kind.isOperator = true → s.Written n) acyclic (fun n acyclic ih hn named operator => ?_)
    hn named operator
  have termed (pin : String) {blank : Pin}
      (there : (n.kind.shape .input).lookup pin = some blank) (bool : blank.signal = .bool) :
      (s.operand s.condition n pin).Termed :=
    termed_operand wired fitting hn there bool fun m read =>
      ih m read read.node? (named.of_reads read)
  unfold Written
  rw [acyclic.condition_eq hn, layer, Node.isBinary, (fitting _ n hn).size]
  cases kind : n.kind with
  | logicalAnd =>
    rw [kind] at termed
    exact (termed Pin.a rfl rfl).conjunction (termed Pin.b rfl rfl)
  | logicalOr =>
    rw [kind] at termed
    exact (termed Pin.a rfl rfl).disjunction (termed Pin.b rfl rfl)
  | logicalNot =>
    rw [kind] at termed
    exact (termed Pin.defaultInput rfl rfl).negation
  | markerExists name => exact Condition.termed_marker (named n name .refl kind)
  | result => simp [kind, NodeKind.isOperator] at operator
  | onPass => simp [kind, NodeKind.isOperator] at operator
  | emitMarker e => simp [kind, NodeKind.isOperator] at operator
  | removeMarker name => simp [kind, NodeKind.isOperator] at operator

theorem phrased_result (wired : s.Wired) (fitting : s.Fitting) (acyclic : s.Acyclic n)
    (hn : s.node? n.id = some n) (named : s.Named n) (result : n.kind = .result)
    {p : Pin} (hp : n.pin? Pin.select .input = some p) (linked : p.link ≠ none) :
    (s.condition n).Phrased := by
  have there : (n.kind.shape .input).lookup Pin.select =
      some (.unlinked Pin.select .bool .input .mandatory) := by
    rw [result]
    rfl
  obtain ⟨p', hp', blank⟩ := (fitting _ n hn).pin? there
  obtain rfl : p' = p := Option.some.inj (hp'.symm.trans hp)
  have bool : p'.signal = .bool := congrArg Pin.signal blank
  rcases reading_bool wired fitting hn hp bool with ⟨unlinked, -⟩ | ⟨m, read, operator⟩
  · exact absurd unlinked linked
  have reads := reads_of_reading read
  have acyclic' : s.Acyclic m := acyclic.of_reaches (.single reads)
  have written := written_of_acyclic wired fitting acyclic' reads.node? (named.of_reads reads)
    operator
  rw [acyclic.condition_eq hn, layer, result, operand, read]
  dsimp only
  split
  · exact written.phrased.selection_grouped
  · apply written.phrased.selection
    rw [acyclic'.condition_eq reads.node?, text_selection_layer]

def HasPhrase (n : Node) : Prop :=
  n.kind.isOperator = true ∨
    n.kind = .result ∧ ∃ p, n.pin? Pin.select .input = some p ∧ p.link ≠ none

/-- In a script that was edited without changing kinds, the text of a condition
without cycles has one phrase, and it says what the condition asks. -/
theorem text_parses_once {start : Script} (h : start.IsStart) {edits : List Edit}
    (keeps : ∀ e ∈ edits, e.changesKind = false) {id : NodeId}
    (found : (start.run edits).node? id = some n) (acyclic : (start.run edits).Acyclic n)
    (named : (start.run edits).Named n) (kind : HasPhrase n) :
    ∃ p, Parses ((start.run edits).condition n).text p ∧
      (∀ p', Parses ((start.run edits).condition n).text p' → p' = p) ∧
      ∀ present, p.holds present = ((start.run edits).condition n).holds present := by
  have wired := h.wired_run edits
  have fitting := h.fitting_run keeps
  have hn : (start.run edits).node? n.id = some n := by rwa [id_of_node? found]
  apply Condition.Phrased.parses
  rcases kind with operator | ⟨result, p, hp, linked⟩
  · exact (written_of_acyclic wired fitting acyclic hn named operator).phrased
  · exact phrased_result wired fitting acyclic hn named result hp linked

def nested : List Edit :=
  [.createNode (.markerExists "Wall"), .createNode (.markerExists "Door"),
    .createNode .logicalOr, .createNode .logicalNot, .createNode .logicalAnd,
    .createNode .logicalAnd, .link 3 Pin.defaultOutput 4 Pin.a, .setDefault 4 Pin.b "TRUE",
    .link 4 Pin.defaultOutput 5 Pin.defaultInput, .link 3 Pin.defaultOutput 6 Pin.a,
    .link 5 Pin.defaultOutput 6 Pin.b, .link 2 Pin.defaultOutput 7 Pin.a,
    .link 6 Pin.defaultOutput 7 Pin.b, .link 7 Pin.defaultOutput 0 Pin.select]

theorem text_parses_once_nested : ∃ n, (withEntries.run nested).node? 0 = some n ∧
    (∀ e ∈ nested, e.changesKind = false) ∧ (withEntries.run nested).Acyclic n ∧
    (withEntries.run nested).Named n ∧ HasPhrase n ∧
    ∃ p, Parses ((withEntries.run nested).condition n).text p ∧
      (∀ p', Parses ((withEntries.run nested).condition n).text p' → p' = p) ∧
      ∀ present, p.holds present = ((withEntries.run nested).condition n).holds present := by
  have keeps : ∀ e ∈ nested, e.changesKind = false := by decide
  have entry : ∃ n ∈ (withEntries.run nested).nodes,
      (withEntries.run nested).node? 0 = some n ∧ n.kind = .result ∧
        ∃ p ∈ n.pin? Pin.select .input, p.link ≠ none := by
    decide +kernel
  obtain ⟨n, hn, found, result, p, hp, linked⟩ := entry
  have acyclic : (withEntries.run nested).Acyclic n :=
    acyclic_of_rank (fun m => if m.id = 0 then 8 else m.id.toNat) (by decide +kernel) hn
  have names : ∀ m ∈ (withEntries.run nested).nodes, ∀ name ∈ m.kind.markerName?,
      Token.IsName name := by
    decide +kernel
  have named : (withEntries.run nested).Named n := fun m name reach kind =>
    names m (reach.mem hn) name (by simp [kind, NodeKind.markerName?])
  have kind : HasPhrase n := .inr ⟨result, p, hp, linked⟩
  exact ⟨n, found, keeps, acyclic, named, kind,
    text_parses_once .authored keeps found acyclic named kind⟩

end Script

end MarkerLattice
