import Mathlib
import MarkerLattice.Proofs.Script.Wiring

/-! The graph of a script: the successors of its outputs of actions, and what its
inputs of truth values read. A link sets one edge of the graph and breaking one
removes one, whatever the pins at its ends remember besides. -/
namespace MarkerLattice

namespace Edit

variable {α : Type}

def require (f : Script → Except ScriptError α) : EStateM ScriptError Script α := fun s =>
  match f s with
  | .ok a => .ok a s
  | .error e => .error e s

def write : Edit → EStateM ScriptError Script Unit
  | .createNode kind => modify fun s => (s.createNode kind).2
  | .link source output target input => do
    if source = target then throw (.selfLink source)
    let given ← require (·.signalOf source output .output)
    let wanted ← require (·.signalOf target input .input)
    if given ≠ wanted then throw (.signalMismatch given wanted)
    match given with
    | .exec => modify (·.unlink source output .output)
    | .bool => modify (·.unlink target input .input)
    modify (·.setLink source output .output (some ⟨target, input⟩))
    modify (·.setLink target input .input (some ⟨source, output⟩))
  | .unlink id pin direction => modify (·.unlink id pin direction)
  | .setDefault id pin text => do
    if ((← get).pin? id pin .input).isNone then throw (.unknownPin id pin .input)
    modify (·.modifyPin id pin .input fun p => { p with defaultText := text })
  | .setResult id => do
    if ((← get).node? id).isNone then throw (.unknownNode id)
    modify ({ · with resultId := some id })
  | .setPass id => do
    if ((← get).node? id).isNone then throw (.unknownNode id)
    modify ({ · with passId := some id })
  | .setKind id kind => modify (·.setKind id kind)
  | .clear => modify Script.clear

/-- A step refuses before its first write. -/
theorem write_eq (e : Edit) (s : Script) : e.write s =
    match s.edit? e with
    | .ok t => .ok () t
    | .error refusal => .error refusal s := by
  cases e with
  | link source output target input =>
    simp only [write, Script.edit?, Script.link]
    by_cases self : source = target
    · rw [if_pos self, if_pos self]
      rfl
    · rw [if_neg self, if_neg self]
      cases ho : s.signalOf source output .output with
      | error e => simp [bind, EStateM.bind, Except.bind, require, ho]
      | ok g =>
        cases hi : s.signalOf target input .input with
        | error e => simp [bind, EStateM.bind, Except.bind, require, ho, hi]
        | ok g' =>
          by_cases same : g = g'
          · subst same
            simp only [bind, EStateM.bind, Except.bind, pure, require, ho, hi,
              ne_eq, not_true_eq_false, if_false]
            cases g <;> rfl
          · simp only [bind, EStateM.bind, Except.bind, pure, require, ho, hi,
              ne_eq, same, not_false_eq_true, if_true]
            rfl
  | setDefault id pin text =>
    simp only [write, Script.edit?, Script.setDefault, bind, EStateM.bind, get, getThe,
      MonadStateOf.get, EStateM.get]
    cases s.pin? id pin .input <;> rfl
  | setResult id =>
    simp only [write, Script.edit?, Script.setResult, bind, EStateM.bind, get, getThe,
      MonadStateOf.get, EStateM.get]
    cases s.node? id <;> rfl
  | setPass id =>
    simp only [write, Script.edit?, Script.setPass, bind, EStateM.bind, get, getThe,
      MonadStateOf.get, EStateM.get]
    cases s.node? id <;> rfl
  | _ => rfl

theorem eq_of_write_eq_error {e : Edit} {s t : Script} {refusal : ScriptError}
    (h : e.write s = .error refusal t) : s.edit? e = .error refusal ∧ t = s := by
  rw [write_eq] at h
  cases done : s.edit? e with
  | ok u => simp [done] at h
  | error reason =>
    simp only [done, EStateM.Result.error.injEq] at h
    exact ⟨congrArg _ h.1, h.2.symm⟩

end Edit

theorem Direction.opposite_eq_iff {d e : Direction} : d.opposite = e ↔ d ≠ e := by
  cases d <;> cases e <;> simp [opposite]

namespace Script

variable {s t : Script} {o i a b : Port} {g : Signal}

/-- Why a link is refused: the first reason, in this order, that there is. -/
inductive Refuses (s : Script) (o i : Port) : ScriptError → Prop where
  | self (same : o.node = i.node) : s.Refuses o i (.selfLink o.node)
  | source (apart : o.node ≠ i.node) (unknown : s.node? o.node = none) :
    s.Refuses o i (.unknownNode o.node)
  | output {n : Node} (apart : o.node ≠ i.node) (source : s.node? o.node = some n)
    (missing : n.pin? o.pin .output = none) :
    s.Refuses o i (.unknownPin o.node o.pin .output)
  | target {n : Node} {p : Pin} (apart : o.node ≠ i.node) (source : s.node? o.node = some n)
    (output : n.pin? o.pin .output = some p) (unknown : s.node? i.node = none) :
    s.Refuses o i (.unknownNode i.node)
  | input {n m : Node} {p : Pin} (apart : o.node ≠ i.node) (source : s.node? o.node = some n)
    (output : n.pin? o.pin .output = some p) (target : s.node? i.node = some m)
    (missing : m.pin? i.pin .input = none) : s.Refuses o i (.unknownPin i.node i.pin .input)
  | signal {n m : Node} {p q : Pin} (apart : o.node ≠ i.node)
    (source : s.node? o.node = some n) (output : n.pin? o.pin .output = some p)
    (target : s.node? i.node = some m) (input : m.pin? i.pin .input = some q)
    (differ : p.signal ≠ q.signal) : s.Refuses o i (.signalMismatch p.signal q.signal)

theorem Refuses.link {e : ScriptError} (h : s.Refuses o i e) :
    s.link o.node o.pin i.node i.pin = .error e := by
  cases h <;> simp_all [Script.link, signalOf, bind, Except.bind, throw, throwThe,
    MonadExceptOf.throw]

theorem exists_link_or_refuses (s : Script) (o i : Port) :
    (∃ t, s.link o.node o.pin i.node i.pin = .ok t) ∨ ∃ e, s.Refuses o i e := by
  by_cases same : o.node = i.node
  · exact .inr ⟨_, .self same⟩
  cases hn : s.node? o.node with
  | none => exact .inr ⟨_, .source same hn⟩
  | some n =>
    cases hp : n.pin? o.pin .output with
    | none => exact .inr ⟨_, .output same hn hp⟩
    | some p =>
      cases hm : s.node? i.node with
      | none => exact .inr ⟨_, .target same hn hp hm⟩
      | some m =>
        cases hq : m.pin? i.pin .input with
        | none => exact .inr ⟨_, .input same hn hp hm hq⟩
        | some q =>
          by_cases differ : p.signal = q.signal
          · refine .inl ⟨_, link_eq_ok_iff.mpr ⟨same, p.signal, ?_, ?_, rfl⟩⟩
            · simp [signal?, pinAt?, pin?, hn, hp]
            · simp [signal?, pinAt?, pin?, hm, hq, differ]
          · exact .inr ⟨_, .signal same hn hp hm hq differ⟩

theorem link_eq_error_iff {e : ScriptError} :
    s.link o.node o.pin i.node i.pin = .error e ↔ s.Refuses o i e := by
  refine ⟨fun failed => ?_, Refuses.link⟩
  rcases s.exists_link_or_refuses o i with ⟨t, linked⟩ | ⟨e', reason⟩
  · rw [failed] at linked
    cases linked
  · have same := reason.link.symm.trans failed
    exact Except.error.inj same ▸ reason

/-- The successor of an output of actions, and what an input of truth values
reads. -/
def edge? (s : Script) (a : Port) : Option Port :=
  match s.signal? a, a.direction with
  | some .exec, .output | some .bool, .input => s.far? a
  | _, _ => none

theorem edge?_eq (hg : s.signal? a = some g) :
    s.edge? a = if a.direction = g.returned then none else s.far? a := by
  unfold edge?
  rw [hg]
  generalize a.direction = d
  cases g <;> cases d <;> rfl

theorem edge?_congr {c : Port} (signal : t.signal? c = s.signal? c) (far : t.far? c = s.far? c) :
    t.edge? c = s.edge? c := by
  unfold edge?
  rw [signal, far]

theorem edge?_eq_none (h : s.far? a = none) : s.edge? a = none := by
  unfold edge?
  split <;> first | exact h | rfl

theorem edge?_unlink (s : Script) (a c : Port) :
    (s.unlink a.node a.pin a.direction).edge? c =
      if c = a ∨ s.far? a = some c ∧ s.far? c = some a then none else s.edge? c := by
  have far := s.far?_unlink a c
  split
  next cleared => exact edge?_eq_none (by rw [far, if_pos cleared])
  next kept => exact edge?_congr (s.signal?_unlink a c) (by rw [far, if_neg kept])

/-- Of the two ends of a link, only the one across from the returning side has an
edge. -/
theorem Wired.edge?_far (h : s.Wired) (hab : s.far? a = some b) (hg : s.signal? a = some g) :
    s.edge? b = if a.direction = g.returned then some a else none := by
  obtain ⟨-, g', ha, hb⟩ := h.sound a b hab
  obtain rfl : g' = g := Option.some.inj (ha.symm.trans hg)
  rw [edge?_eq hb, direction_of_far? hab]
  by_cases side : a.direction = g'.returned
  · rw [if_neg fun across => Direction.opposite_eq_iff.mp across side, if_pos side]
    exact h.back a b g' hab hg side.symm
  · rw [if_pos (Direction.opposite_eq_iff.mpr side), if_neg side]

theorem Wired.edge?_unlink_sole (h : s.Wired) (hg : s.signal? a = some g)
    (side : a.direction ≠ g.returned) :
    (s.unlink a.node a.pin a.direction).edge? = Function.update s.edge? a none := by
  funext c
  rw [edge?_unlink, Function.update_apply]
  by_cases here : c = a
  · rw [if_pos (.inl here), if_pos here]
  · rw [if_neg here]
    split
    next cleared =>
      obtain ⟨leads, -⟩ := cleared.resolve_left here
      rw [h.edge?_far leads hg, if_neg side]
    next => rfl

theorem Wired.edge?_unlink_returned (h : s.Wired) (hg : s.signal? a = some g)
    (side : a.direction = g.returned) (hab : s.far? a = some b) :
    (s.unlink a.node a.pin a.direction).edge? = Function.update s.edge? b none := by
  have back := h.back a b g hab hg side.symm
  funext c
  rw [edge?_unlink, Function.update_apply]
  by_cases far : c = b
  · rw [if_pos (.inr ⟨far ▸ hab, far ▸ back⟩), if_pos far]
  · rw [if_neg far]
    split
    next cleared =>
      have here : c = a := cleared.resolve_right fun leads =>
        far (Option.some.inj (leads.1.symm.trans hab))
      rw [here, edge?_eq hg, if_pos side]
    next => rfl

theorem edge?_unlink_alone (hg : s.signal? a = some g) (side : a.direction = g.returned)
    (alone : s.far? a = none) : (s.unlink a.node a.pin a.direction).edge? = s.edge? := by
  funext c
  rw [edge?_unlink]
  split
  next cleared =>
    have here : c = a := cleared.resolve_right fun leads => by simp [alone] at leads
    rw [here, edge?_eq hg, if_pos side]
  next => rfl

theorem Wired.edge?_connect (h : s.Wired) (output : o.direction = .output)
    (input : i.direction = .input) (ho : s.signal? o = some g) (hi : s.signal? i = some g) :
    (s.connect (soleEnd g o i) o i).edge? =
      Function.update s.edge? (soleEnd g o i) (some (soleEnd g i o)) := by
  have far := far?_connect_soleEnd output input ho hi
  have signal (c : Port) := s.signal?_connect (soleEnd g o i) o i c
  have elsewhere (c : Port) (notI : c ≠ i) (notO : c ≠ o) :
      (s.connect (soleEnd g o i) o i).edge? c = s.edge? c := by
    by_cases cleared : s.far? (soleEnd g o i) = some c ∧ s.far? c = some (soleEnd g o i)
    · have sole : s.signal? (soleEnd g o i) = some g := by cases g <;> assumption
      have across : (soleEnd g o i).direction ≠ g.returned := by
        cases g <;> simp [soleEnd, output, input, Signal.returned]
      rw [edge?_eq_none (by rw [far, if_neg notI, if_neg notO, if_pos cleared]),
        h.edge?_far cleared.1 sole, if_neg across]
    · exact edge?_congr (signal c) (by rw [far, if_neg notI, if_neg notO, if_neg cleared])
  have distinct : o ≠ i := by
    rintro rfl
    cases output.symm.trans input
  funext c
  rw [Function.update_apply]
  by_cases atI : c = i
  · subst atI
    rw [edge?_eq ((signal c).trans hi), edge?_eq hi, far]
    cases g <;> simp [soleEnd, input, Signal.returned, distinct.symm]
  · by_cases atO : c = o
    · subst atO
      rw [edge?_eq ((signal c).trans ho), edge?_eq ho, far]
      cases g <;> simp [soleEnd, output, Signal.returned, distinct]
    · have notSole : c ≠ soleEnd g o i := by cases g <;> assumption
      rw [elsewhere c atI atO, if_neg notSole]

theorem ext_pinAt? (distinct : (s.nodes.map Node.id).Nodup) (outline : t.outline = s.outline)
    (keeps : s.KeepsShape t) (pins : ∀ a, t.pinAt? a = s.pinAt? a) : t = s := by
  obtain ⟨ids, nextId, resultId, passId⟩ := Outline.mk.inj outline
  have node {n m : Node} (hn : t.node? n.id = some n) (hm : s.node? m.id = some m)
      (id : n.id = m.id) : n = m := by
    obtain ⟨m', hm', kind, -⟩ := keeps _ _ hn
    obtain rfl : m = m' := Option.some.inj (hm.symm.trans (id ▸ hm'))
    refine Node.ext_pin? id kind fun name d => ?_
    simpa [pinAt?, pin?, hn, ← id, hm'] using pins ⟨n.id, name, d⟩
  have nodes : t.nodes = s.nodes := by
    have lengths : t.nodes.length = s.nodes.length := by
      simpa using congrArg List.length ids
    refine List.ext_getElem lengths fun k ht hs => node (node?_of_mem (ids ▸ distinct) ?_)
      (node?_of_mem distinct ?_) ?_
    · exact List.getElem_mem ht
    · exact List.getElem_mem hs
    · have same := List.getElem_of_eq ids (by simpa using ht)
      rwa [List.getElem_map, List.getElem_map] at same
  cases s
  cases t
  simp_all

theorem connect_connect (distinct : (s.nodes.map Node.id).Nodup) (output : o.direction = .output)
    (input : i.direction = .input) (ho : s.signal? o = some g) (hi : s.signal? i = some g) :
    (s.connect (soleEnd g o i) o i).connect (soleEnd g o i) o i =
      s.connect (soleEnd g o i) o i := by
  set t := s.connect (soleEnd g o i) o i with ht
  have outline : t.outline = s.outline := outline_connect _ _ _ _
  have ids : t.nodes.map Node.id = s.nodes.map Node.id := congrArg Outline.ids outline
  refine ext_pinAt? (ids ▸ distinct) (outline_connect _ _ _ _) (keepsShape_connect _ _ _ _)
    fun c => ?_
  have far := far?_connect_soleEnd output input ho hi
  rw [← ht] at far
  have sole : soleEnd g o i = o ∨ soleEnd g o i = i := by cases g <;> simp [soleEnd]
  have wasO : o ≠ i := by
    rintro rfl
    cases output.symm.trans input
  have farI : t.far? i = some o := by rw [far, if_pos rfl]
  have farO : t.far? o = some i := by rw [far, if_neg wasO, if_pos rfl]
  obtain ⟨⟨p, hp, linkI⟩, -⟩ := (t.far?_eq_some_iff i o).mp farI
  obtain ⟨⟨q, hq, linkO⟩, -⟩ := (t.far?_eq_some_iff o i).mp farO
  rw [pinAt?_connect t sole]
  split
  next atI => rw [atI, hp, Option.map_some, ← linkI]
  next notI =>
    split
    next atO => rw [atO, hq, Option.map_some, ← linkO]
    next notO =>
      rw [if_neg]
      rintro ⟨leads, -⟩
      cases g
      · exact notO (Option.some.inj (leads.symm.trans farI))
      · exact notI (Option.some.inj (leads.symm.trans farO))

/-- How editing treats the graph of a script. -/
structure GraphLaws (s : Script) : Prop where
  refused : ∀ source output target input e, s.link source output target input = .error e ↔
    s.Refuses ⟨source, output, .output⟩ ⟨target, input, .input⟩ e
  untouched : ∀ (e : Edit) refusal t, e.write s = .error refusal t →
    s.edit? e = .error refusal ∧ t = s
  linked_exec : ∀ source output target input t,
    s.signal? ⟨source, output, .output⟩ = some .exec → s.link source output target input = .ok t →
    t.edge? = Function.update s.edge? ⟨source, output, .output⟩ (some ⟨target, input, .input⟩)
  linked_bool : ∀ source output target input t,
    s.signal? ⟨source, output, .output⟩ = some .bool → s.link source output target input = .ok t →
    t.edge? = Function.update s.edge? ⟨target, input, .input⟩ (some ⟨source, output, .output⟩)
  repeated : ∀ source output target input t, s.link source output target input = .ok t →
    t.link source output target input = .ok t
  unlinked : ∀ a, s.signal? a = some .exec ∧ a.direction = .output ∨
      s.signal? a = some .bool ∧ a.direction = .input →
    (s.unlink a.node a.pin a.direction).edge? = Function.update s.edge? a none
  unlinked_far : ∀ a, s.signal? a = some .exec ∧ a.direction = .input ∨
      s.signal? a = some .bool ∧ a.direction = .output →
    match s.far? a with
    | none => (s.unlink a.node a.pin a.direction).edge? = s.edge?
    | some b => s.edge? b = some a ∧
      (s.unlink a.node a.pin a.direction).edge? = Function.update s.edge? b none

theorem graphLaws_of_wired (h : s.Wired) (distinct : (s.nodes.map Node.id).Nodup) :
    s.GraphLaws where
  refused source output target input _ :=
    link_eq_error_iff (o := ⟨source, output, .output⟩) (i := ⟨target, input, .input⟩)
  untouched _ _ _ := Edit.eq_of_write_eq_error
  linked_exec source output target input t exec linked := by
    obtain ⟨-, g, ho, hi, rfl⟩ := link_eq_ok_iff.mp linked
    obtain rfl : g = .exec := Option.some.inj (ho.symm.trans exec)
    exact h.edge?_connect rfl rfl ho hi
  linked_bool source output target input t bool linked := by
    obtain ⟨-, g, ho, hi, rfl⟩ := link_eq_ok_iff.mp linked
    obtain rfl : g = .bool := Option.some.inj (ho.symm.trans bool)
    exact h.edge?_connect rfl rfl ho hi
  repeated source output target input t linked := by
    obtain ⟨apart, g, ho, hi, rfl⟩ := link_eq_ok_iff.mp linked
    refine link_eq_ok_iff.mpr ⟨apart, g, ?_, ?_, ?_⟩
    · rwa [signal?_connect]
    · rwa [signal?_connect]
    · exact (connect_connect distinct rfl rfl ho hi).symm
  unlinked a sole := by
    rcases sole with ⟨signal, side⟩ | ⟨signal, side⟩
    · exact h.edge?_unlink_sole signal (by simp [side, Signal.returned])
    · exact h.edge?_unlink_sole signal (by simp [side, Signal.returned])
  unlinked_far a returned := by
    have side : ∃ g, s.signal? a = some g ∧ a.direction = g.returned := by
      rcases returned with ⟨signal, side⟩ | ⟨signal, side⟩
      · exact ⟨_, signal, side⟩
      · exact ⟨_, signal, side⟩
    obtain ⟨g, signal, side⟩ := side
    cases far : s.far? a with
    | none => exact edge?_unlink_alone signal side far
    | some b =>
      refine ⟨?_, h.edge?_unlink_returned signal side far⟩
      rw [h.edge?_far far signal, if_pos side]

/-- Whatever editing has led to, editing on treats the graph by its laws. -/
theorem graphLaws_run {start : Script} (h : start.IsStart) {edits : List Edit}
    (room : start.nextId.toNat + edits.countP Edit.creates < 2 ^ 32) :
    (start.run edits).GraphLaws :=
  graphLaws_of_wired (h.wired_run edits) (outline_sound_run h.outline_sound room).1.nodup

def crossing : List Edit :=
  [.createNode (.emitMarker ⟨"Torch", [], []⟩), .createNode (.removeMarker "Torch"),
    .link 1 Pin.defaultOutput 2 Pin.defaultInput, .link 3 Pin.defaultOutput 2 Pin.defaultInput,
    .createNode (.markerExists "Wall"), .createNode .logicalAnd,
    .link 4 Pin.defaultOutput 5 Pin.a, .link 4 Pin.defaultOutput 5 Pin.b]

theorem graphLaws_crossing :
    withEntries.nextId.toNat + crossing.countP Edit.creates < 2 ^ 32 ∧
      (withEntries.run crossing).GraphLaws ∧
      ((withEntries.run crossing).unlink 2 Pin.defaultInput .input).edge? =
        Function.update (withEntries.run crossing).edge? ⟨3, Pin.defaultOutput, .output⟩ none ∧
      (withEntries.run crossing).edge? ⟨1, Pin.defaultOutput, .output⟩ =
        some ⟨2, Pin.defaultInput, .input⟩ := by
  have room : withEntries.nextId.toNat + crossing.countP Edit.creates < 2 ^ 32 := by
    decide +kernel
  have laws := graphLaws_run .authored room
  have signal : (withEntries.run crossing).signal? ⟨2, Pin.defaultInput, .input⟩ =
      some .exec := by
    decide +kernel
  have far : (withEntries.run crossing).far? ⟨2, Pin.defaultInput, .input⟩ =
      some ⟨3, Pin.defaultOutput, .output⟩ := by
    decide +kernel
  have broken := laws.unlinked_far ⟨2, Pin.defaultInput, .input⟩ (.inl ⟨signal, rfl⟩)
  rw [far] at broken
  exact ⟨room, laws, broken.2, by decide +kernel⟩

end Script

end MarkerLattice
