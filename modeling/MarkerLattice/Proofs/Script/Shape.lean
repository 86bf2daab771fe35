import Mathlib
import MarkerLattice.Proofs.Script.Edit

/-! The pins of a node are laid out by the kind it was created with. Editing
changes their defaults and links and nothing else. -/
namespace MarkerLattice

def Pin.blank (p : Pin) : Pin := { p with defaultText := "", link := none }

namespace NodeKind

def pins (k : NodeKind) : Direction → List Pin
  | .input => k.inputPins
  | .output => k.outputPins

theorem of_mem_pins {k : NodeKind} {d : Direction} {p : Pin} (h : p ∈ k.pins d) :
    p.direction = d ∧ p.link = none := by
  have all : ∀ p ∈ k.pins d, p.direction = d ∧ p.link = none := by
    cases d <;> cases k <;> simp [pins, inputPins, outputPins, Pin.unlinked]
  exact all p h

def shape (k : NodeKind) (d : Direction) : List (String × Pin) :=
  (k.pins d).map fun p => (p.name, p)

end NodeKind

namespace Node

def shape (n : Node) (d : Direction) : List (String × Pin) :=
  (n.pins d).entries.map fun e => (e.1, e.2.blank)

/-- The node has the pins of a node that was created as `k`. -/
def HasShape (n : Node) (k : NodeKind) : Prop := ∀ d, n.shape d = k.shape d

theorem entries_ofKind (id : NodeId) (k : NodeKind) (d : Direction) :
    ((ofKind id k).pins d).entries = k.shape d := by
  cases d <;> cases k <;> rfl

theorem hasShape_ofKind (id : NodeId) (k : NodeKind) : (ofKind id k).HasShape k := by
  intro d
  cases d <;> cases k <;> rfl

theorem lookup_shape (n : Node) (d : Direction) (name : String) :
    (n.shape d).lookup name = (n.pin? name d).map Pin.blank := by
  unfold shape pin? NameMap.get?
  induction (n.pins d).entries with
  | nil => rfl
  | cons e rest ih =>
    rw [List.map_cons, List.lookup_cons, List.lookup_cons, ih]
    cases name == e.1 <;> rfl

theorem link_of_pin?_ofKind {id : NodeId} {k : NodeKind} {name : String} {d : Direction}
    {p : Pin} (h : (ofKind id k).pin? name d = some p) : p.link = none := by
  have mem := NameMap.mem_entries_of_get? h
  rw [entries_ofKind] at mem
  obtain ⟨p', hp', same⟩ := List.mem_map.mp mem
  obtain rfl : p' = p := congrArg Prod.snd same
  exact (NodeKind.of_mem_pins hp').2

theorem HasShape.mem_pins {n : Node} {k : NodeKind} (shape : n.HasShape k) {name : String}
    {d : Direction} {p : Pin} (h : n.pin? name d = some p) : p.blank ∈ k.pins d := by
  have mem : (name, p.blank) ∈ n.shape d :=
    List.mem_map.mpr ⟨_, NameMap.mem_entries_of_get? h, rfl⟩
  rw [shape d] at mem
  obtain ⟨p', hp', same⟩ := List.mem_map.mp mem
  obtain rfl : p' = p.blank := congrArg Prod.snd same
  exact hp'

theorem HasShape.direction {n : Node} {k : NodeKind} (shape : n.HasShape k) {name : String}
    {d : Direction} {p : Pin} (h : n.pin? name d = some p) : p.direction = d :=
  (NodeKind.of_mem_pins (shape.mem_pins h)).1

theorem HasShape.size {n : Node} (shape : n.HasShape n.kind) :
    n.inputs.size = (n.kind.pins .input).length := by
  have same := congrArg List.length (shape .input)
  simpa [Node.shape, NodeKind.shape, NameMap.size, pins] using same

theorem HasShape.pin? {n : Node} {d : Direction} {name : String} {blank : Pin}
    (shape : n.HasShape n.kind) (h : (n.kind.shape d).lookup name = some blank) :
    ∃ p, n.pin? name d = some p ∧ p.blank = blank := by
  rw [← shape d, lookup_shape] at h
  exact Option.map_eq_some_iff.mp h

theorem shape_modifyPin {f : Pin → Pin} (keeps : ∀ p, (f p).blank = p.blank) (n : Node)
    (pin : String) (d d' : Direction) : (n.modifyPin pin d f).shape d' = n.shape d' := by
  have entries (m : NameMap Pin) : (m.modify pin f).entries.map (fun e => (e.1, e.2.blank)) =
      m.entries.map fun e => (e.1, e.2.blank) := by
    rw [NameMap.modify, List.map_map]
    apply List.map_congr_left
    intro e _
    by_cases h : e.1 = pin <;> simp [h, keeps]
  cases d <;> cases d' <;> first | rfl | exact entries _

end Node

namespace Script

def KeepsShape (s t : Script) : Prop := ∀ id n', t.node? id = some n' →
  ∃ n, s.node? id = some n ∧ n'.kind = n.kind ∧ n'.shape = n.shape

theorem KeepsShape.trans {s t u : Script} (st : s.KeepsShape t) (tu : t.KeepsShape u) :
    s.KeepsShape u := by
  intro id n'' hn''
  obtain ⟨n', hn', kind', shape'⟩ := tu id n'' hn''
  obtain ⟨n, hn, kind, shape⟩ := st id n' hn'
  exact ⟨n, hn, kind'.trans kind, shape'.trans shape⟩

theorem keepsShape_refl (s : Script) : s.KeepsShape s := fun _ n hn => ⟨n, hn, rfl, rfl⟩

theorem keepsShape_modifyPin {f : Pin → Pin} (keeps : ∀ p, (f p).blank = p.blank)
    (s : Script) (id : NodeId) (pin : String) (d : Direction) :
    s.KeepsShape (s.modifyPin id pin d f) := by
  intro k n' hn'
  rw [modifyPin, node?_modifyNode _ _ (by simp)] at hn'
  split at hn'
  · obtain ⟨n, hn, rfl⟩ := Option.map_eq_some_iff.mp hn'
    exact ⟨n, hn, by simp, funext (Node.shape_modifyPin keeps n pin d)⟩
  · exact ⟨n', hn', rfl, rfl⟩

theorem keepsShape_setLink (s : Script) (id : NodeId) (pin : String) (d : Direction)
    (link : Option Link) : s.KeepsShape (s.setLink id pin d link) :=
  keepsShape_modifyPin (f := fun p => { p with link }) (fun _ => rfl) s id pin d

theorem keepsShape_unlink (s : Script) (id : NodeId) (pin : String) (d : Direction) :
    s.KeepsShape (s.unlink id pin d) := by
  unfold unlink
  split
  · exact keepsShape_refl s
  · apply (keepsShape_setLink s id pin d none).trans
    apply keepsShape_modifyPin
    intro p
    split <;> rfl

theorem keepsShape_connect (s : Script) (x o i : Port) : s.KeepsShape (s.connect x o i) :=
  ((keepsShape_unlink s _ _ _).trans (keepsShape_setLink _ _ _ _ _)).trans
    (keepsShape_setLink _ _ _ _ _)

theorem node?_edit {s : Script} {e : Edit} {id : NodeId} {n' : Node}
    (h : (s.edit e).node? id = some n') :
    (∃ n, s.node? id = some n ∧ (e.changesKind = false → n'.kind = n.kind) ∧
      n'.shape = n.shape) ∨ ∃ k, n' = .ofKind id k := by
  have of_keeps {t : Script} (keeps : s.KeepsShape t) (ht : t.node? id = some n') :
      ∃ n, s.node? id = some n ∧ (e.changesKind = false → n'.kind = n.kind) ∧
        n'.shape = n.shape := by
    obtain ⟨n, hn, kind, shape⟩ := keeps id n' ht
    exact ⟨n, hn, fun _ => kind, shape⟩
  rcases s.edit_done_or_refused e with done | ⟨-, refused⟩
  case inr =>
    rw [refused] at h
    exact .inl (of_keeps s.keepsShape_refl h)
  cases e with
  | createNode kind =>
    have created : (s.edit (.createNode kind)).node? id = _ := s.node?_createNode kind id
    rw [created, Option.or_eq_some_iff] at h
    rcases h with old | ⟨-, new⟩
    · exact .inl ⟨n', old, fun _ => rfl, rfl⟩
    · split at new
      · exact .inr ⟨kind, (Option.some.inj new).symm⟩
      · cases new
  | link source output target input =>
    obtain ⟨-, g, -, -, linked⟩ := link_eq_ok_iff.mp done
    rw [linked] at h
    exact .inl (of_keeps (s.keepsShape_connect _ _ _) h)
  | unlink k pin d => exact .inl (of_keeps (s.keepsShape_unlink k pin d) h)
  | setDefault k pin text =>
    obtain ⟨-, set⟩ := setDefault_eq_ok_iff.mp done
    rw [set] at h
    have keeps := keepsShape_modifyPin (f := fun p => { p with defaultText := text })
      (fun _ => rfl) s k pin .input
    exact .inl (of_keeps keeps h)
  | setResult k =>
    obtain ⟨-, set⟩ := setResult_eq_ok_iff.mp done
    rw [set] at h
    exact .inl (of_keeps s.keepsShape_refl h)
  | setPass k =>
    obtain ⟨-, set⟩ := setPass_eq_ok_iff.mp done
    rw [set] at h
    exact .inl (of_keeps s.keepsShape_refl h)
  | setKind k kind =>
    have changed : (s.edit (.setKind k kind)).node? id = _ :=
      s.node?_modifyNode k (f := fun n => { n with kind }) (fun _ => rfl) id
    rw [changed] at h
    split at h
    · obtain ⟨n, hn, rfl⟩ := Option.map_eq_some_iff.mp h
      exact .inl ⟨n, hn, by simp [Edit.changesKind], rfl⟩
    · exact .inl ⟨n', h, fun _ => rfl, rfl⟩
  | clear => cases h

def Shaped (s : Script) : Prop := ∀ id n, s.node? id = some n → ∃ k, n.HasShape k

def Fitting (s : Script) : Prop := ∀ id n, s.node? id = some n → n.HasShape n.kind

theorem shaped_empty : empty.Shaped := fun _ _ h => nomatch h

theorem fitting_empty : empty.Fitting := fun _ _ h => nomatch h

theorem shaped_run {s : Script} (h : s.Shaped) (edits : List Edit) : (s.run edits).Shaped := by
  induction edits generalizing s with
  | nil => exact h
  | cons e rest ih =>
    apply ih
    intro id n' hn'
    rcases node?_edit hn' with ⟨n, hn, -, shape⟩ | ⟨k, rfl⟩
    · obtain ⟨k, hk⟩ := h id n hn
      exact ⟨k, fun d => (congrFun shape d).trans (hk d)⟩
    · exact ⟨k, Node.hasShape_ofKind id k⟩

theorem fitting_run {s : Script} (h : s.Fitting) {edits : List Edit}
    (keeps : ∀ e ∈ edits, e.changesKind = false) : (s.run edits).Fitting := by
  induction edits generalizing s with
  | nil => exact h
  | cons e rest ih =>
    refine ih ?_ fun e' he' => keeps e' (List.mem_cons_of_mem _ he')
    intro id n' hn'
    rcases node?_edit hn' with ⟨n, hn, kind, shape⟩ | ⟨k, rfl⟩
    · intro d
      rw [kind (keeps e List.mem_cons_self), shape]
      exact h id n hn d
    · exact Node.hasShape_ofKind id k

theorem IsStart.shaped_run {start : Script} (h : start.IsStart) (edits : List Edit) :
    (start.run edits).Shaped := by
  obtain ⟨made, rfl, -⟩ := h.exists_run
  exact Script.shaped_run (Script.shaped_run shaped_empty made) edits

theorem IsStart.fitting_run {start : Script} (h : start.IsStart) {edits : List Edit}
    (keeps : ∀ e ∈ edits, e.changesKind = false) : (start.run edits).Fitting := by
  obtain ⟨made, rfl, kept⟩ := h.exists_run
  exact Script.fitting_run (Script.fitting_run fitting_empty kept) keeps

end Script

end MarkerLattice
