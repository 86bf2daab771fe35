import Mathlib
import MarkerLattice.Proofs.Keyed

/-! The pins of a script by their places, and what the writes of editing change:
which pin a pin is linked to, and which signal it carries. -/
namespace MarkerLattice

theorem NameMap.get?_modify {α : Type} (m : NameMap α) (name k : String) (f : α → α) :
    (m.modify name f).get? k = if k = name then (m.get? k).map f else m.get? k := by
  change (m.entries.map fun e => if e.1 = name then (e.1, f e.2) else e).lookup k =
    if k = name then (m.entries.lookup k).map f else m.entries.lookup k
  generalize m.entries = entries
  induction entries with
  | nil => simp
  | cons e rest ih =>
    obtain ⟨key, a⟩ := e
    have head : (if key = name then (key, f a) else (key, a)).1 = key := by split <;> rfl
    rw [List.map_cons, List.lookup_cons, List.lookup_cons, ih, head]
    by_cases hk : k = key
    · subst hk
      by_cases hn : k = name <;> simp [hn]
    · have other : (k == key) = false := by simpa using hk
      simp only [other]

theorem NameMap.mem_entries_of_get? {α : Type} {m : NameMap α} {name : String} {a : α}
    (h : m.get? name = some a) : (name, a) ∈ m.entries := by
  obtain ⟨before, after, split, -⟩ := List.lookup_eq_some_iff.mp h
  rw [split]
  exact List.mem_append_right _ List.mem_cons_self

theorem NameMap.get?_of_mem {α : Type} {m : NameMap α} {name : String} {a : α}
    (h : (name, a) ∈ m.entries) : m.get? name = some a := by
  obtain ⟨before, after, split⟩ := List.append_of_mem h
  refine List.lookup_eq_some_iff.mpr ⟨before, after, split, fun e he => ?_⟩
  have sorted := m.sorted
  rw [split, List.map_append, List.pairwise_append] at sorted
  have below := sorted.2.2 e.1 (List.mem_map_of_mem he) name (by simp)
  simpa using ne_of_gt below

theorem NameMap.ext_get? {α : Type} {m m' : NameMap α}
    (same : ∀ name, m.get? name = m'.get? name) : m = m' := by
  have distinct (m : NameMap α) : m.entries.Nodup :=
    .of_map Prod.fst (m.sorted.imp ne_of_lt)
  have perm : m.entries.Perm m'.entries := by
    refine (List.perm_ext_iff_of_nodup (distinct m) (distinct m')).mpr fun e => ?_
    constructor
    · exact fun he => mem_entries_of_get? ((same e.1).symm.trans (get?_of_mem he))
    · exact fun he => mem_entries_of_get? ((same e.1).trans (get?_of_mem he))
  have sorted (m : NameMap α) : m.entries.Pairwise fun e e' => e.1 < e'.1 :=
    List.pairwise_map.mp m.sorted
  have entries := perm.eq_of_pairwise
    (fun e e' _ _ lt gt => absurd gt (lt_asymm lt)) (sorted m) (sorted m')
  cases m
  cases m'
  cases entries
  rfl

namespace Node

theorem pin?_modifyPin (n : Node) (pin pin' : String) (d d' : Direction) (f : Pin → Pin) :
    (n.modifyPin pin d f).pin? pin' d' =
      if pin' = pin ∧ d' = d then (n.pin? pin' d').map f else n.pin? pin' d' := by
  cases d <;> cases d' <;> simp [modifyPin, pin?, pins, NameMap.get?_modify]

theorem ext_pin? {n m : Node} (id : n.id = m.id) (kind : n.kind = m.kind)
    (pins : ∀ name d, n.pin? name d = m.pin? name d) : n = m := by
  have inputs : n.inputs = m.inputs := NameMap.ext_get? fun name => pins name .input
  have outputs : n.outputs = m.outputs := NameMap.ext_get? fun name => pins name .output
  cases n
  cases m
  simp_all

@[simp] theorem id_modifyPin (n : Node) (pin : String) (d : Direction) (f : Pin → Pin) :
    (n.modifyPin pin d f).id = n.id := by
  cases d <;> rfl

@[simp] theorem kind_modifyPin (n : Node) (pin : String) (d : Direction) (f : Pin → Pin) :
    (n.modifyPin pin d f).kind = n.kind := by
  cases d <;> rfl

def linkedTo (n : Node) (pin : String) (direction : Direction) (far : Link) : Node :=
  n.modifyPin pin direction fun p => { p with link := some far }

end Node

structure Port where
  node : NodeId
  pin : String
  direction : Direction
deriving DecidableEq

namespace Port

def link (a : Port) : Link := ⟨a.node, a.pin⟩

end Port

def Link.port (l : Link) (direction : Direction) : Port := ⟨l.node, l.pin, direction⟩

namespace Signal

/-- The side whose links the far pin always returns. Many outputs may lead to one
input of actions and many inputs may read one output of truth values; the pin in
the middle remembers its latest link only. -/
def returned : Signal → Direction
  | .bool => .output
  | .exec => .input

end Signal

namespace Script

section Nodes

variable {α : Type} {test : α → Bool} {f : α → α}

theorem find?_modifyFirst (keeps : ∀ a, test (f a) = test a) (l : List α) :
    (modifyFirst test f l).find? test = (l.find? test).map f := by
  induction l with
  | nil => rfl
  | cons a rest ih =>
    cases h : test a with
    | true => simp [modifyFirst, h, keeps]
    | false => simp [modifyFirst, h, ih]

theorem find?_modifyFirst_of_disjoint {other : α → Bool}
    (apart : ∀ a, test a = true → other a = false ∧ other (f a) = false) (l : List α) :
    (modifyFirst test f l).find? other = l.find? other := by
  induction l with
  | nil => rfl
  | cons a rest ih =>
    cases h : test a with
    | true => simp [modifyFirst, h, apart a h]
    | false => simp [modifyFirst, h, List.find?_cons, ih]

theorem map_modifyFirst {β : Type} {g : α → β} (keeps : ∀ a, g (f a) = g a) (l : List α) :
    (modifyFirst test f l).map g = l.map g := by
  induction l with
  | nil => rfl
  | cons a rest ih =>
    cases h : test a with
    | true => simp [modifyFirst, h, keeps]
    | false => simp [modifyFirst, h, ih]

variable (s : Script) (id : NodeId)

theorem node?_modifyNode {f : Node → Node} (keeps : ∀ n, (f n).id = n.id) (k : NodeId) :
    (s.modifyNode id f).node? k = if k = id then (s.node? k).map f else s.node? k := by
  unfold node? modifyNode
  split
  next h =>
    subst h
    exact find?_modifyFirst (by simp [keeps]) _
  next h =>
    apply find?_modifyFirst_of_disjoint
    intro n hn
    have other : n.id ≠ k := by
      rintro rfl
      exact h (by simpa using hn)
    simp [keeps, other]

theorem id_of_node? {s : Script} {id : NodeId} {n : Node} (h : s.node? id = some n) :
    n.id = id := by
  simpa using List.find?_some h

theorem node?_of_mem {s : Script} (distinct : (s.nodes.map Node.id).Nodup) {n : Node}
    (hn : n ∈ s.nodes) : s.node? n.id = some n :=
  find?_key distinct hn

theorem node?_createNode (kind : NodeKind) (k : NodeId) :
    (s.createNode kind).2.node? k =
      (s.node? k).or (if k = s.nextId then some (.ofKind k kind) else none) := by
  simp only [createNode, node?, List.find?_append, List.find?_singleton]
  congr 1
  by_cases h : k = s.nextId
  · simp [Node.ofKind, h]
  · simp [Node.ofKind, h, Ne.symm h]

end Nodes

section Ports

variable (s : Script) (a b c : Port)

def pinAt? : Option Pin := s.pin? a.node a.pin a.direction

def signal? : Option Signal := (s.pinAt? a).map Pin.signal

def far? : Option Port := ((s.pinAt? a).bind Pin.link).map (·.port a.direction.opposite)

theorem far?_eq_some_iff : s.far? a = some b ↔
    (∃ p, s.pinAt? a = some p ∧ p.link = some b.link) ∧ b.direction = a.direction.opposite := by
  obtain ⟨node, pin, direction⟩ := b
  simp only [far?, Option.map_eq_some_iff, Option.bind_eq_some_iff, Link.port, Port.link,
    Port.mk.injEq]
  constructor
  · rintro ⟨l, ⟨p, hp, hl⟩, rfl, rfl, rfl⟩
    exact ⟨⟨p, hp, hl⟩, rfl⟩
  · rintro ⟨⟨p, hp, hl⟩, rfl⟩
    exact ⟨_, ⟨p, hp, hl⟩, rfl, rfl, rfl⟩

theorem pinAt?_modifyPin (f : Pin → Pin) :
    (s.modifyPin a.node a.pin a.direction f).pinAt? c =
      if c = a then (s.pinAt? c).map f else s.pinAt? c := by
  obtain ⟨node, pin, direction⟩ := a
  simp only [pinAt?, pin?, modifyPin]
  rw [node?_modifyNode _ _ (by simp)]
  by_cases hn : c.node = node
  · rw [if_pos hn]
    cases hk : s.node? c.node with
    | none => simp
    | some n =>
      have same : c = ⟨node, pin, direction⟩ ↔ c.pin = pin ∧ c.direction = direction := by
        cases c
        simp_all
      simp only [Option.map_some, Option.bind_some, Node.pin?_modifyPin, same]
  · have other : c ≠ ⟨node, pin, direction⟩ := by
      rintro rfl
      exact hn rfl
    rw [if_neg hn, if_neg other]

theorem pinAt?_setLink (link : Option Link) :
    (s.setLink a.node a.pin a.direction link).pinAt? c =
      if c = a then (s.pinAt? c).map fun p => { p with link } else s.pinAt? c :=
  s.pinAt?_modifyPin a c _

/-- Breaking the link of `a` clears it, and the far pin if that leads back. -/
theorem pinAt?_unlink : (s.unlink a.node a.pin a.direction).pinAt? c =
    if c = a ∨ s.far? a = some c ∧ s.far? c = some a then
      (s.pinAt? c).map fun p => { p with link := none }
    else s.pinAt? c := by
  unfold unlink
  cases hl : (s.pin? a.node a.pin a.direction).bind Pin.link with
  | none =>
    change (s.pinAt? a).bind Pin.link = none at hl
    have alone : s.far? a = none := by rw [far?, hl]; rfl
    simp only [alone, reduceCtorEq, false_and, or_false]
    split
    next same =>
      subst same
      cases hp : s.pinAt? c with
      | none => rfl
      | some p =>
        have unlinked : p.link = none := by simpa [hp] using hl
        cases p
        simp_all
    next => rfl
  | some l =>
    change (s.pinAt? a).bind Pin.link = some l at hl
    have leads : s.far? a = some (l.port a.direction.opposite) := by rw [far?, hl]; rfl
    have apart : l.port a.direction.opposite ≠ a := by
      intro same
      have side := congrArg Port.direction same
      cases hd : a.direction <;> simp [Link.port, hd, Direction.opposite] at side
    have far := (s.setLink a.node a.pin a.direction none).pinAt?_modifyPin
      (l.port a.direction.opposite) c fun far =>
        if far.link = some a.link then { far with link := none } else far
    change Script.pinAt? _ c = _ at far
    simp only
    refine far.trans ?_
    rw [pinAt?_setLink, leads]
    by_cases ha : c = a
    · subst ha
      rw [if_neg (Ne.symm apart), if_pos rfl, if_pos (Or.inl rfl)]
    · simp only [ha, false_or, if_false, Option.some.injEq]
      by_cases hc : c = l.port a.direction.opposite
      · have side : a.direction = c.direction.opposite := by
          rw [hc]
          cases a.direction <;> rfl
        have returns : s.far? c = some a ↔ ∃ p, s.pinAt? c = some p ∧ p.link = some a.link := by
          rw [far?_eq_some_iff]
          exact and_iff_left side
        simp only [if_pos hc, returns]
        cases hp : s.pinAt? c with
        | none => simp
        | some p => by_cases back : p.link = some a.link <;> simp [← hc, back]
      · rw [if_neg hc, if_neg fun h => hc h.1.symm]

theorem signal?_eq_some_iff {g : Signal} :
    s.signal? a = some g ↔ ∃ p, s.pinAt? a = some p ∧ p.signal = g :=
  Option.map_eq_some_iff

@[simp] theorem signal?_setLink (link : Option Link) :
    (s.setLink a.node a.pin a.direction link).signal? c = s.signal? c := by
  rw [signal?, pinAt?_setLink, signal?]
  split
  · rw [Option.map_map]; rfl
  · rfl

@[simp] theorem signal?_unlink :
    (s.unlink a.node a.pin a.direction).signal? c = s.signal? c := by
  rw [signal?, pinAt?_unlink, signal?]
  split
  · rw [Option.map_map]; rfl
  · rfl

theorem exists_pinAt? {s : Script} {a : Port} (h : (s.signal? a).isSome) :
    ∃ p, s.pinAt? a = some p := by
  simpa [signal?, Option.isSome_iff_exists] using h

theorem far?_unlink : (s.unlink a.node a.pin a.direction).far? c =
    if c = a ∨ s.far? a = some c ∧ s.far? c = some a then none else s.far? c := by
  rw [far?, pinAt?_unlink]
  split
  · cases s.pinAt? c <;> rfl
  · rfl

end Ports

section Link

variable {s t : Script} {source target : NodeId} {output input : String}

/-- The end of a new link that may have only one: the source of an action and the
reader of a truth value. -/
def soleEnd (g : Signal) (o i : Port) : Port :=
  match g with
  | .exec => o
  | .bool => i

theorem signalOf_eq_ok_iff {id : NodeId} {pin : String} {d : Direction} {g : Signal} :
    s.signalOf id pin d = .ok g ↔ s.signal? ⟨id, pin, d⟩ = some g := by
  simp only [signalOf, signal?, pinAt?, pin?]
  cases s.node? id with
  | none => simp
  | some n => cases hp : n.pin? pin d <;> simp [hp]

def connect (s : Script) (x o i : Port) : Script :=
  ((s.unlink x.node x.pin x.direction).setLink o.node o.pin o.direction
    (some i.link)).setLink i.node i.pin i.direction (some o.link)

@[simp] theorem signal?_connect (s : Script) (x o i c : Port) :
    (s.connect x o i).signal? c = s.signal? c := by
  rw [connect, signal?_setLink, signal?_setLink, signal?_unlink]

theorem pinAt?_connect (s : Script) {x o i : Port} (sole : x = o ∨ x = i) (c : Port) :
    (s.connect x o i).pinAt? c =
      if c = i then (s.pinAt? c).map fun p => { p with link := some o.link }
      else if c = o then (s.pinAt? c).map fun p => { p with link := some i.link }
      else if s.far? x = some c ∧ s.far? c = some x then
        (s.pinAt? c).map fun p => { p with link := none }
      else s.pinAt? c := by
  rw [connect, pinAt?_setLink, pinAt?_setLink, pinAt?_unlink]
  by_cases atI : c = i
  · rw [if_pos atI, if_pos atI]
    cases s.pinAt? c <;> (split <;> split <;> rfl)
  · rw [if_neg atI, if_neg atI]
    by_cases atO : c = o
    · rw [if_pos atO, if_pos atO]
      cases s.pinAt? c <;> (split <;> rfl)
    · have other : c ≠ x := by
        rintro rfl
        exact sole.elim atO atI
      simp [atO, other]

theorem far?_connect {s : Script} {x o i : Port} (sides : o.direction = i.direction.opposite)
    (sole : x = o ∨ x = i) (ho : (s.signal? o).isSome) (hi : (s.signal? i).isSome) (c : Port) :
    (s.connect x o i).far? c =
      if c = i then some o else if c = o then some i
      else if s.far? x = some c ∧ s.far? c = some x then none else s.far? c := by
  have sides' : i.direction = o.direction.opposite := by
    rw [sides]
    cases i.direction <;> rfl
  rw [far?, pinAt?_connect s sole]
  split
  next atI =>
    obtain ⟨p, hp⟩ := exists_pinAt? hi
    simp [atI, hp, Link.port, Port.link, ← sides]
  next =>
    split
    next atO =>
      obtain ⟨p, hp⟩ := exists_pinAt? ho
      simp [atO, hp, Link.port, Port.link, ← sides']
    next =>
      split
      · cases s.pinAt? c <;> rfl
      · rfl

/-- What a link needs, and what it does: the end that may have only one link is
freed, and both ends record the new one. -/
theorem link_eq_ok_iff : s.link source output target input = .ok t ↔
    source ≠ target ∧ ∃ g, s.signal? ⟨source, output, .output⟩ = some g ∧
      s.signal? ⟨target, input, .input⟩ = some g ∧
      t = s.connect (soleEnd g ⟨source, output, .output⟩ ⟨target, input, .input⟩)
        ⟨source, output, .output⟩ ⟨target, input, .input⟩ := by
  simp only [← signalOf_eq_ok_iff, link, bind, Except.bind, pure, Except.pure, throw,
    throwThe, MonadExceptOf.throw]
  by_cases self : source = target
  · simp [self]
  · cases ho : s.signalOf source output .output with
    | error e => simp [self]
    | ok g =>
      cases hi : s.signalOf target input .input with
      | error e => simp [self]
      | ok g' =>
        by_cases same : g = g'
        · subst same
          cases g <;> simp [self, soleEnd, connect, Port.link, eq_comm]
        · simp [self, same, Ne.symm same]

end Link

end Script

end MarkerLattice
