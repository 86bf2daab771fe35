import Mathlib
import MarkerLattice.Proofs.Script.Wiring
import MarkerLattice.Proofs.Script.Unfold
import MarkerLattice.Proofs.Script.Chain

/-! Conditions and actions share the pins of one graph, but a node has pins of one
signal only and links keep to it. So editing the order of actions leaves every
condition as it is, and editing conditions leaves the actions. -/
namespace MarkerLattice

namespace NodeKind

def signal (k : NodeKind) : Signal := if k.isConditional then .bool else .exec

theorem signal_of_mem_pins {k : NodeKind} {d : Direction} {p : Pin} (h : p ∈ k.pins d) :
    p.signal = k.signal := by
  have all : ∀ p ∈ k.pins d, p.signal = k.signal := by
    cases d <;> cases k <;> simp [pins, inputPins, outputPins, Pin.unlinked, signal, isConditional]
  exact all p h

theorem signal_eq_bool_iff {k : NodeKind} : k.signal = .bool ↔ k.isConditional = true := by
  cases h : k.isConditional <;> simp [signal, h]

theorem signal_eq_exec_iff {k : NodeKind} : k.signal = .exec ↔ k.isAction = true := by
  cases h : k.isConditional <;> simp [signal, isAction, h]

theorem length_pins_output_le (k : NodeKind) : (k.pins .output).length ≤ 1 := by
  cases k <;> simp [pins, outputPins]

end NodeKind

namespace Node

variable {n : Node} {name : String} {d : Direction} {p : Pin}

theorem HasShape.signal (shape : n.HasShape n.kind) (h : n.pin? name d = some p) :
    p.signal = n.kind.signal :=
  have blank : p.blank.signal = n.kind.signal := NodeKind.signal_of_mem_pins (shape.mem_pins h)
  blank

theorem HasShape.execOutput? (shape : n.HasShape n.kind) (h : n.pin? name .output = some p)
    (exec : p.signal = .exec) : n.execOutput? = some p := by
  have lengths := congrArg List.length (shape .output)
  have short := n.kind.length_pins_output_le
  have mem := NameMap.mem_entries_of_get? h
  simp only [Node.shape, NodeKind.shape, List.length_map] at lengths
  have entries : (n.pins .output).entries = [(name, p)] := by
    have present := List.length_pos_of_mem mem
    have one : (n.pins .output).entries.length = 1 := by omega
    obtain ⟨e, listed⟩ := List.length_eq_one_iff.mp one
    rw [listed] at mem ⊢
    rw [List.mem_singleton.mp mem]
  have values : n.outputs.values = [p] := congrArg (List.map Prod.snd) entries
  simp [Node.execOutput?, values, exec]

theorem exists_pin?_of_execOutput? (h : n.execOutput? = some p) :
    ∃ name, n.pin? name .output = some p ∧ p.signal = .exec := by
  obtain ⟨e, he, rfl⟩ := List.mem_map.mp (List.mem_of_find?_eq_some h)
  exact ⟨e.1, NameMap.get?_of_mem he, by simpa using List.find?_some h⟩

end Node

def Edit.Touches (s : Script) (g : Signal) : Edit → Prop
  | .link source output target input =>
    s.signal? ⟨source, output, .output⟩ = some g ∨ s.signal? ⟨target, input, .input⟩ = some g
  | .unlink id pin direction => s.signal? ⟨id, pin, direction⟩ = some g
  | .setDefault id pin _ => s.signal? ⟨id, pin, .input⟩ = some g
  | _ => False

namespace Script

variable {s t : Script} {g : Signal} {n m : Node} {id : NodeId}

structure AgreesOff (g : Signal) (s t : Script) : Prop where
  outline : t.outline = s.outline
  keeps : s.KeepsShape t
  pins : ∀ c, s.signal? c ≠ some g → t.pinAt? c = s.pinAt? c

/-- Links keep to one signal, so a step writes pins of that signal only. -/
theorem Wired.agreesOff_edit (h : s.Wired) {e : Edit} (touches : e.Touches s g) :
    AgreesOff g s (s.edit e) := by
  have apart {a c : Port} (ha : s.signal? a = some g) (hc : s.signal? c ≠ some g) :
      c ≠ a ∧ s.far? a ≠ some c := by
    refine ⟨fun same => hc (same ▸ ha), fun leads => hc ?_⟩
    obtain ⟨-, g', ha', hc'⟩ := h.sound a c leads
    exact hc'.trans (ha'.symm.trans ha)
  rcases s.edit_done_or_refused e with done | ⟨-, refused⟩
  case inr =>
    rw [refused]
    exact ⟨rfl, s.keepsShape_refl, fun _ _ => rfl⟩
  cases e with
  | link source output target input =>
    obtain ⟨-, g', ho, hi, linked⟩ := link_eq_ok_iff.mp done
    obtain rfl : g' = g := by
      rcases touches with there | there
      · exact Option.some.inj (ho.symm.trans there)
      · exact Option.some.inj (hi.symm.trans there)
    rw [linked]
    refine ⟨outline_connect _ _ _ _, keepsShape_connect _ _ _ _, fun c hc => ?_⟩
    have sole : s.signal? (soleEnd g' ⟨source, output, .output⟩ ⟨target, input, .input⟩) =
        some g' := by
      cases g' <;> assumption
    rw [pinAt?_connect s (by cases g' <;> simp [soleEnd]), if_neg (apart hi hc).1,
      if_neg (apart ho hc).1, if_neg fun cleared => (apart sole hc).2 cleared.1]
  | unlink id pin d =>
    refine ⟨outline_unlink _ _ _ _, keepsShape_unlink _ _ _ _, fun c hc => ?_⟩
    obtain ⟨other, elsewhere⟩ := apart touches hc
    exact (s.pinAt?_unlink ⟨id, pin, d⟩ c).trans
      (if_neg fun cleared => cleared.elim other fun both => elsewhere both.1)
  | setDefault id pin text =>
    obtain ⟨-, set⟩ := setDefault_eq_ok_iff.mp done
    have keeps := keepsShape_modifyPin (f := fun p => { p with defaultText := text })
      (fun _ => rfl) s id pin .input
    rw [set]
    refine ⟨outline_modifyPin _ _ _ _ _, keeps, fun c hc => ?_⟩
    exact (s.pinAt?_modifyPin ⟨id, pin, .input⟩ c _).trans (if_neg (apart touches hc).1)
  | _ => cases touches

theorem isSome_node?_iff : (s.node? id).isSome ↔ id ∈ s.outline.ids := by
  refine ⟨mem_ids_of_node?, fun mem => ?_⟩
  obtain ⟨n, hn, rfl⟩ := List.mem_map.mp mem
  simpa [node?] using ⟨n, hn, rfl⟩

theorem AgreesOff.exists_node? (h : AgreesOff g s t) (hn : s.node? id = some n) :
    ∃ n', t.node? id = some n' ∧ n'.kind = n.kind := by
  have there : (t.node? id).isSome := by
    rw [isSome_node?_iff, h.outline, ← isSome_node?_iff, hn]
    rfl
  obtain ⟨n', hn'⟩ := Option.isSome_iff_exists.mp there
  obtain ⟨n₀, hn₀, kind, -⟩ := h.keeps id n' hn'
  obtain rfl : n = n₀ := Option.some.inj (hn.symm.trans hn₀)
  exact ⟨n', hn', kind⟩

theorem AgreesOff.node?_eq_none (h : AgreesOff g s t) (hn : s.node? id = none) :
    t.node? id = none := by
  rw [← Option.not_isSome_iff_eq_none, isSome_node?_iff] at hn ⊢
  rwa [h.outline]

theorem AgreesOff.node?_eq (h : AgreesOff g s t) (fitting : s.Fitting)
    (hn : s.node? id = some n) (other : n.kind.signal ≠ g) : t.node? id = some n := by
  obtain ⟨n', hn', kind⟩ := h.exists_node? hn
  have same : n' = n := by
    refine Node.ext_pin? ((id_of_node? hn').trans (id_of_node? hn).symm) kind fun name d => ?_
    have untouched : s.signal? ⟨id, name, d⟩ ≠ some g := by
      intro touched
      obtain ⟨p, hp, rfl⟩ := (s.signal?_eq_some_iff _).mp touched
      simp only [pinAt?, pin?, hn, Option.bind_some] at hp
      exact other ((fitting id n hn).signal hp).symm
    simpa [pinAt?, pin?, hn, hn'] using h.pins ⟨id, name, d⟩ untouched
  rw [hn', same]

theorem node?_of_nextAction? (h : s.nextAction? n = some m) : s.node? m.id = some m := by
  obtain ⟨⟨l, -, hm⟩, -⟩ := by
    simpa only [nextAction?, Option.filter_eq_some_iff, Option.bind_eq_some_iff] using h
  rwa [id_of_node? hm]

theorem node?_of_passNode? (h : s.passNode? = some n) : s.node? n.id = some n := by
  obtain ⟨id, -, hn⟩ := Option.bind_eq_some_iff.mp (Option.filter_eq_some_iff.mp h).1
  rwa [id_of_node? hn]

section Links

variable (wired : s.Wired) (fitting : s.Fitting) (hn : s.node? n.id = some n)
include wired fitting hn

theorem exists_far_node {name : String} {d : Direction} {p : Pin} {l : Link}
    (hp : n.pin? name d = some p) (hl : p.link = some l) :
    ∃ m, s.node? l.node = some m ∧ m.kind.signal = p.signal := by
  obtain ⟨m, hm, -, q, hq, signal⟩ := wired.linked hn hp hl
  exact ⟨m, hm, ((fitting _ m hm).signal hq).symm.trans signal⟩

theorem reading_of_link {pin : String} {p : Pin} {l : Link} (hp : n.pin? pin .input = some p)
    (bool : p.signal = .bool) (hl : p.link = some l) :
    ∃ m, s.node? l.node = some m ∧ m.kind.isConditional = true ∧ s.reading n pin = .source m := by
  obtain ⟨m, hm, signal⟩ := exists_far_node wired fitting hn hp hl
  have conditional := NodeKind.signal_eq_bool_iff.mp (signal.trans bool)
  have get : n.inputs.get? pin = some p := hp
  exact ⟨m, hm, conditional, by simp [reading, get, hl, hm, conditional]⟩

theorem nextAction?_of_link {pin : String} {p : Pin} {l : Link}
    (hp : n.pin? pin .output = some p) (exec : p.signal = .exec) (hl : p.link = some l) :
    ∃ m, s.node? l.node = some m ∧ m.kind.isAction = true ∧ s.nextAction? n = some m := by
  obtain ⟨m, hm, signal⟩ := exists_far_node wired fitting hn hp hl
  have action := NodeKind.signal_eq_exec_iff.mp (signal.trans exec)
  have output := (fitting _ n hn).execOutput? hp exec
  exact ⟨m, hm, action, by simp [nextAction?, output, hl, hm, action]⟩

end Links

/-- The nodes of `s` are nodes of `t`, and its conditions have the same pins there. -/
def KeepsConditions (s t : Script) : Prop := ∀ id n, s.node? id = some n →
  ∃ n', t.node? id = some n' ∧ n'.kind = n.kind ∧ (n.kind.isConditional = true → n' = n)

theorem keepsConditions_createNode (s : Script) (kind : NodeKind) :
    s.KeepsConditions (s.createNode kind).2 := by
  intro id n hn
  exact ⟨n, by rw [node?_createNode, hn]; rfl, rfl, fun _ => rfl⟩

theorem AgreesOff.keepsConditions (h : AgreesOff .exec s t) (fitting : s.Fitting) :
    s.KeepsConditions t := by
  intro id n hn
  obtain ⟨n', hn', kind⟩ := h.exists_node? hn
  refine ⟨n', hn', kind, fun conditional => ?_⟩
  have signal := NodeKind.signal_eq_bool_iff.mpr conditional
  have same := h.node?_eq fitting hn (by simp [signal])
  exact Option.some.inj (hn'.symm.trans same)

section Conditions

variable (keeps : s.KeepsConditions t) (wired : s.Wired) (fitting : s.Fitting)
include keeps wired fitting

theorem reading_eq_of_keeps (hn : s.node? n.id = some n)
    (conditional : n.kind.isConditional = true) : t.reading n = s.reading n := by
  funext pin
  cases hp : n.inputs.get? pin with
  | none => simp only [reading, hp]
  | some p =>
    cases hl : p.link with
    | none => simp only [reading, hp, hl]
    | some l =>
      have bool : p.signal = .bool := by
        rw [(fitting _ n hn).signal (d := .input) hp]
        exact NodeKind.signal_eq_bool_iff.mpr conditional
      obtain ⟨m, hm, conditional, read⟩ := reading_of_link wired fitting hn hp bool hl
      obtain ⟨m', hm', -, same⟩ := keeps _ m hm
      obtain rfl := same conditional
      rw [read]
      simp [reading, hp, hl, hm', conditional]

theorem condition_eq_of_keeps (hn : s.node? id = some n) :
    ∃ n', t.node? id = some n' ∧ t.condition n' = s.condition n := by
  obtain rfl := id_of_node? hn
  obtain ⟨n', hn', kind, same⟩ := keeps _ n hn
  refine ⟨n', hn', ?_⟩
  cases conditional : n.kind.isConditional with
  | true =>
    obtain rfl := same conditional
    apply conditionAt_eq_of_reading
    intro m reach
    refine reading_eq_of_keeps keeps wired fitting (reach.node? hn) ?_
    rcases Relation.ReflTransGen.cases_tail reach with here | ⟨k, -, read⟩
    · rwa [here]
    · exact read.isConditional
  | false =>
    -- A node that is no condition unfolds to nothing in either script.
    have nothing (u : Script) (k : Node) (hk : k.kind = n.kind) : u.condition k = .absent := by
      rw [condition, conditionAt_eq, if_neg List.not_mem_nil, layer, hk]
      cases kind : n.kind <;> simp_all [NodeKind.isConditional]
    rw [nothing t n' kind, nothing s n rfl]

end Conditions

section Actions

variable (h : AgreesOff .bool s t) (wired : s.Wired) (fitting : s.Fitting)
include h wired fitting

theorem nextAction?_eq_of_agreesOff (hn : s.node? n.id = some n) :
    t.nextAction? n = s.nextAction? n := by
  cases output : n.execOutput? with
  | none => simp only [nextAction?, output, Option.bind_none, Option.filter_none]
  | some p =>
    cases hl : p.link with
    | none => simp only [nextAction?, output, hl, Option.bind_some, Option.bind_none]
    | some l =>
      obtain ⟨name, hp, exec⟩ := Node.exists_pin?_of_execOutput? output
      obtain ⟨m, hm, action, next⟩ := nextAction?_of_link wired fitting hn hp exec hl
      have signal := NodeKind.signal_eq_exec_iff.mpr action
      have hm' := h.node?_eq fitting hm (by simp [signal])
      rw [next]
      simp [nextAction?, output, hl, hm', action]

omit wired in
theorem passNode?_eq_of_agreesOff : t.passNode? = s.passNode? := by
  have entry : t.passId = s.passId := congrArg Outline.passId h.outline
  unfold passNode?
  rw [entry]
  cases s.passId with
  | none => rfl
  | some id =>
    simp only [Option.bind_some]
    cases hn : s.node? id with
    | none => rw [h.node?_eq_none hn]
    | some n =>
      by_cases pass : n.kind = .onPass
      · have signal : n.kind.signal = .exec := by
          rw [pass]
          rfl
        rw [h.node?_eq fitting hn (by simp [signal])]
      · obtain ⟨n', hn', kind⟩ := h.exists_node? hn
        simp [Option.filter, hn', kind, pass]

theorem chainFrom_eq_of_agreesOff (seen : List NodeId) (n : Node) (hn : s.node? n.id = some n) :
    t.chainFrom seen n = s.chainFrom seen n := by
  rw [chainFrom_eq, chainFrom_eq s, nextAction?_eq_of_agreesOff h wired fitting hn]
  by_cases fresh : n.id ∈ seen
  · rw [if_pos fresh, if_pos fresh]
  · rw [if_neg fresh, if_neg fresh]
    cases next : s.nextAction? n with
    | none => rfl
    | some m =>
      have room := room_lt fresh (mem_of_nextAction? next)
      exact congrArg (n :: ·) (chainFrom_eq_of_agreesOff _ m (node?_of_nextAction? next))
termination_by s.room seen n

theorem chain_eq_of_agreesOff : t.chain = s.chain := by
  rw [chain_eq, chain_eq, passNode?_eq_of_agreesOff h fitting]
  cases entry : s.passNode? with
  | none => rfl
  | some n =>
    rw [Option.bind_some, Option.bind_some,
      nextAction?_eq_of_agreesOff h wired fitting (node?_of_passNode? entry)]
    cases next : s.nextAction? n with
    | none => rfl
    | some m =>
      exact chainFrom_eq_of_agreesOff h wired fitting [] m (node?_of_nextAction? next)

end Actions

/-- Conditions and actions keep apart: the steps that order actions leave the
conditions, those on truth values leave the actions, and no link leads astray. -/
structure Separated (s : Script) : Prop where
  conditions : ∀ e : Edit, e.creates = true ∨ e.Touches s .exec →
    ∀ id n, s.node? id = some n → ∃ n', (s.edit e).node? id = some n' ∧
      (∀ present, ((s.edit e).condition n').holds present = (s.condition n).holds present) ∧
      ((s.edit e).condition n').text = (s.condition n).text
  actions : ∀ e : Edit, e.Touches s .bool →
    (s.edit e).effects = s.effects ∧ (s.edit e).chain.length = s.chain.length
  read : ∀ id n pin p l, s.node? id = some n → n.pin? pin .input = some p → p.signal = .bool →
    p.link = some l →
    ∃ m, s.node? l.node = some m ∧ m.kind.isConditional = true ∧ s.reading n pin = .source m
  followed : ∀ id n pin p l, s.node? id = some n → n.pin? pin .output = some p →
    p.signal = .exec → p.link = some l →
    ∃ m, s.node? l.node = some m ∧ m.kind.isAction = true ∧ s.nextAction? n = some m

theorem separated_of_fitting (wired : s.Wired) (fitting : s.Fitting) : s.Separated where
  conditions e order id n hn := by
    have keeps : s.KeepsConditions (s.edit e) := by
      rcases order with creates | touches
      · cases e with
        | createNode kind => exact s.keepsConditions_createNode kind
        | _ => cases creates
      · exact (wired.agreesOff_edit touches).keepsConditions fitting
    obtain ⟨n', hn', same⟩ := condition_eq_of_keeps keeps wired fitting hn
    exact ⟨n', hn', fun present => by rw [same], by rw [same]⟩
  actions e touches := by
    have same := chain_eq_of_agreesOff (wired.agreesOff_edit touches) wired fitting
    exact ⟨congrArg (·.filterMap Node.effect?) same, congrArg List.length same⟩
  read _ _ _ _ _ hn hp bool hl :=
    reading_of_link wired fitting ((id_of_node? hn).symm ▸ hn) hp bool hl
  followed _ _ _ _ _ hn hp exec hl :=
    nextAction?_of_link wired fitting ((id_of_node? hn).symm ▸ hn) hp exec hl

/-- A script that was edited without changing kinds keeps conditions and actions
apart. -/
theorem separated_run {start : Script} (h : start.IsStart) {edits : List Edit}
    (keeps : ∀ e ∈ edits, e.changesKind = false) : (start.run edits).Separated :=
  separated_of_fitting (h.wired_run edits) (h.fitting_run keeps)

def wallToTorch : List Edit :=
  [.createNode (.markerExists "Wall"), .createNode .logicalAnd,
    .createNode (.removeMarker "Wall"), .createNode (.emitMarker ⟨"Torch", ["Wall"], []⟩),
    .link 2 Pin.defaultOutput 3 Pin.a, .setDefault 3 Pin.b "True",
    .link 3 Pin.defaultOutput 0 Pin.select, .link 1 Pin.defaultOutput 4 Pin.defaultInput,
    .link 4 Pin.defaultOutput 5 Pin.defaultInput, .link 5 Pin.defaultOutput 4 Pin.defaultInput]

theorem separated_wallToTorch : (∀ e ∈ wallToTorch, e.changesKind = false) ∧
    (Edit.link 1 Pin.defaultOutput 5 Pin.defaultInput).Touches (withEntries.run wallToTorch)
      .exec ∧
    (Edit.unlink 2 Pin.defaultOutput .output).Touches (withEntries.run wallToTorch) .bool ∧
    (withEntries.run wallToTorch).Separated := by
  have keeps : ∀ e ∈ wallToTorch, e.changesKind = false := by decide
  refine ⟨keeps, ?_, ?_, separated_run .authored keeps⟩
  · unfold Edit.Touches
    decide +kernel
  · unfold Edit.Touches
    decide +kernel

end Script

end MarkerLattice
