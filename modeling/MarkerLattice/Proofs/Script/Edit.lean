import Mathlib
import MarkerLattice.Proofs.Script.Port

/-! Runs of editing steps, refused ones included. Identifiers grow with the order
of creation, are handed out once and name the entries. -/
namespace MarkerLattice

inductive Edit where
  | createNode (kind : NodeKind)
  | link (source : NodeId) (output : String) (target : NodeId) (input : String)
  | unlink (id : NodeId) (pin : String) (direction : Direction)
  | setDefault (id : NodeId) (pin text : String)
  | setResult (id : NodeId)
  | setPass (id : NodeId)
  | setKind (id : NodeId) (kind : NodeKind)
  | clear
deriving DecidableEq

namespace Edit

def creates : Edit → Bool
  | createNode _ => true
  | _ => false

def changesKind : Edit → Bool
  | setKind .. => true
  | _ => false

end Edit

namespace Script

def edit? (s : Script) : Edit → Except ScriptError Script
  | .createNode kind => .ok (s.createNode kind).2
  | .link source output target input => s.link source output target input
  | .unlink id pin direction => .ok (s.unlink id pin direction)
  | .setDefault id pin text => s.setDefault id pin text
  | .setResult id => s.setResult id
  | .setPass id => s.setPass id
  | .setKind id kind => .ok (s.setKind id kind)
  | .clear => .ok s.clear

def edit (s : Script) (e : Edit) : Script :=
  match s.edit? e with
  | .ok t => t
  | .error _ => s

def run (s : Script) (edits : List Edit) : Script := edits.foldl edit s

def issued (s : Script) : List Edit → List NodeId
  | [] => []
  | .createNode kind :: rest => (s.createNode kind).1 :: (s.edit (.createNode kind)).issued rest
  | e :: rest => (s.edit e).issued rest

theorem issued_cons (s : Script) (e : Edit) (rest : List Edit) : s.issued (e :: rest) =
    (if e.creates then [s.nextId] else []) ++ (s.edit e).issued rest := by
  cases e <;> rfl

/-- A step is done or refused, and a creation is never refused. -/
theorem edit_done_or_refused (s : Script) (e : Edit) :
    s.edit? e = .ok (s.edit e) ∨ e.creates = false ∧ s.edit e = s := by
  unfold edit
  split
  next t h => exact .inl h
  next error h =>
    refine .inr ⟨?_, rfl⟩
    cases e with
    | createNode => simp [edit?] at h
    | _ => rfl

section Steps

variable {s t : Script}

theorem setDefault_eq_ok_iff {id : NodeId} {pin text : String} :
    s.setDefault id pin text = .ok t ↔ (s.pin? id pin .input).isSome ∧
      t = s.modifyPin id pin .input fun p => { p with defaultText := text } := by
  unfold setDefault
  cases s.pin? id pin .input <;> simp [eq_comm]

theorem setResult_eq_ok_iff {id : NodeId} : s.setResult id = .ok t ↔
    (s.node? id).isSome ∧ t = { s with resultId := some id } := by
  unfold setResult
  cases s.node? id <;> simp [eq_comm]

theorem setPass_eq_ok_iff {id : NodeId} : s.setPass id = .ok t ↔
    (s.node? id).isSome ∧ t = { s with passId := some id } := by
  unfold setPass
  cases s.node? id <;> simp [eq_comm]

end Steps

end Script

/-- A script without the kinds and the pins of its nodes. -/
structure Outline where
  ids : List NodeId
  nextId : NodeId
  resultId : Option NodeId
  passId : Option NodeId

namespace Outline

inductive Step (o : Outline) : Edit → Outline → Prop where
  | kept (e : Edit) (keeps : e.creates = false) : Step o e o
  | created (kind : NodeKind) : Step o (.createNode kind)
      { o with ids := o.ids ++ [o.nextId], nextId := o.nextId + 1 }
  | result (id : NodeId) (there : id ∈ o.ids) :
    Step o (.setResult id) { o with resultId := some id }
  | pass (id : NodeId) (there : id ∈ o.ids) : Step o (.setPass id) { o with passId := some id }
  | cleared : Step o .clear { o with ids := [], resultId := none, passId := none }

/-- Identifiers in the order of creation, below the next one, and entries that
are nodes. -/
structure Sound (o : Outline) : Prop where
  increasing : o.ids.Pairwise (· < ·)
  below : ∀ id ∈ o.ids, id < o.nextId
  result : ∀ id, o.resultId = some id → id ∈ o.ids
  pass : ∀ id, o.passId = some id → id ∈ o.ids

variable {o o' : Outline} {e : Edit}

theorem Sound.nodup (h : o.Sound) : o.ids.Nodup :=
  h.increasing.imp fun {a b} (lt : a < b) (same : a = b) => UInt32.lt_irrefl b (same ▸ lt)

theorem Step.toNat_nextId (h : o.Step e o')
    (room : o.nextId.toNat + (if e.creates then 1 else 0) < 2 ^ 32) :
    o'.nextId.toNat = o.nextId.toNat + if e.creates then 1 else 0 := by
  cases h with
  | kept _ keeps => simp [keeps]
  | created kind =>
    simp only [Edit.creates, if_true] at room ⊢
    rw [UInt32.toNat_add]
    exact Nat.mod_eq_of_lt room
  | _ => rfl

theorem Step.sound (h : o.Step e o') (sound : o.Sound)
    (room : o.nextId.toNat + (if e.creates then 1 else 0) < 2 ^ 32) : o'.Sound := by
  have next := h.toNat_nextId room
  cases h with
  | kept => exact sound
  | created kind =>
    have above : o.nextId < o.nextId + 1 := by
      rw [UInt32.lt_iff_toNat_lt, next]
      simp [Edit.creates]
    refine ⟨List.pairwise_append.mpr ⟨sound.increasing, by simp, ?_⟩, ?_, ?_, ?_⟩
    · simpa using sound.below
    · intro id hid
      rcases List.mem_append.mp hid with old | new
      · exact UInt32.lt_trans (sound.below id old) above
      · rw [List.mem_singleton.mp new]
        exact above
    · exact fun id hid => List.mem_append_left _ (sound.result id hid)
    · exact fun id hid => List.mem_append_left _ (sound.pass id hid)
  | result id there =>
    refine ⟨sound.increasing, sound.below, fun k hk => ?_, sound.pass⟩
    rwa [← Option.some.inj hk]
  | pass id there =>
    refine ⟨sound.increasing, sound.below, sound.result, fun k hk => ?_⟩
    rwa [← Option.some.inj hk]
  | cleared => exact ⟨.nil, by simp, by simp, by simp⟩

end Outline

namespace Script

def outline (s : Script) : Outline := ⟨s.nodes.map Node.id, s.nextId, s.resultId, s.passId⟩

variable (s : Script)

@[simp] theorem outline_modifyNode (id : NodeId) {f : Node → Node}
    (keeps : ∀ n, (f n).id = n.id) : (s.modifyNode id f).outline = s.outline := by
  simp only [outline, modifyNode, map_modifyFirst keeps]

@[simp] theorem outline_modifyPin (id : NodeId) (pin : String) (d : Direction)
    (f : Pin → Pin) : (s.modifyPin id pin d f).outline = s.outline :=
  outline_modifyNode s id fun n => n.id_modifyPin pin d f

@[simp] theorem outline_unlink (id : NodeId) (pin : String) (d : Direction) :
    (s.unlink id pin d).outline = s.outline := by
  unfold unlink
  split
  · rfl
  · rw [outline_modifyPin, setLink, outline_modifyPin]

@[simp] theorem outline_connect (x o i : Port) : (s.connect x o i).outline = s.outline := by
  simp only [connect, setLink, outline_modifyPin, outline_unlink]

theorem outline_createNode (kind : NodeKind) : (s.createNode kind).2.outline =
    { s.outline with ids := s.outline.ids ++ [s.nextId], nextId := s.nextId + 1 } := by
  simp [createNode, outline, Node.ofKind]

theorem mem_ids_of_node? {s : Script} {id : NodeId} (h : (s.node? id).isSome) :
    id ∈ s.outline.ids := by
  obtain ⟨n, hn⟩ := Option.isSome_iff_exists.mp h
  exact List.mem_map.mpr ⟨n, List.mem_of_find?_eq_some hn, id_of_node? hn⟩

theorem outline_edit (e : Edit) : s.outline.Step e (s.edit e).outline := by
  rcases s.edit_done_or_refused e with done | ⟨keeps, refused⟩
  case inr =>
    rw [refused]
    exact .kept e keeps
  cases e with
  | createNode kind =>
    have created : (s.edit (.createNode kind)).outline = _ := s.outline_createNode kind
    rw [created]
    exact .created kind
  | link source output target input =>
    obtain ⟨-, g, -, -, linked⟩ := link_eq_ok_iff.mp done
    rw [linked, outline_connect]
    exact .kept _ rfl
  | unlink id pin d =>
    have kept : (s.edit (.unlink id pin d)).outline = s.outline := s.outline_unlink id pin d
    rw [kept]
    exact .kept _ rfl
  | setDefault id pin text =>
    obtain ⟨-, set⟩ := setDefault_eq_ok_iff.mp done
    rw [set, outline_modifyPin]
    exact .kept _ rfl
  | setResult id =>
    obtain ⟨there, set⟩ := setResult_eq_ok_iff.mp done
    rw [set]
    exact .result id (mem_ids_of_node? there)
  | setPass id =>
    obtain ⟨there, set⟩ := setPass_eq_ok_iff.mp done
    rw [set]
    exact .pass id (mem_ids_of_node? there)
  | setKind id kind =>
    have kept : (s.edit (.setKind id kind)).outline = s.outline :=
      s.outline_modifyNode id fun _ => rfl
    rw [kept]
    exact .kept _ rfl
  | clear => exact .cleared

/-- As long as identifiers last, a run keeps the outline sound and hands them out
one after the other. -/
theorem outline_sound_run {s : Script} (sound : s.outline.Sound) {edits : List Edit}
    (room : s.nextId.toNat + edits.countP Edit.creates < 2 ^ 32) :
    (s.run edits).outline.Sound ∧
      (s.issued edits).map UInt32.toNat =
        List.range' s.nextId.toNat (edits.countP Edit.creates) := by
  induction edits generalizing s with
  | nil => exact ⟨sound, by simp [issued]⟩
  | cons e rest ih =>
    -- What is left of the room after `e` is the room that the rest needs.
    have step := s.outline_edit e
    rw [List.countP_cons] at room ⊢
    have first : s.outline.nextId.toNat + (if e.creates then 1 else 0) < 2 ^ 32 := by
      change s.nextId.toNat + _ < _
      omega
    have next : (s.edit e).nextId.toNat = s.nextId.toNat + if e.creates then 1 else 0 :=
      step.toNat_nextId first
    obtain ⟨after, issued⟩ := ih (step.sound sound first) (by omega)
    refine ⟨after, ?_⟩
    rw [issued_cons, List.map_append, issued, next]
    cases e.creates with
    | false => rfl
    | true => simp [List.range'_succ, Nat.add_comm]

/-- The scripts that editing starts from. -/
inductive IsStart : Script → Prop where
  | empty : IsStart Script.empty
  | authored : IsStart withEntries

def entryEdits : List Edit :=
  [.createNode .result, .createNode .onPass, .setDefault 0 Pin.select "true", .setResult 0,
    .setPass 1]

theorem withEntries_eq_run : withEntries = empty.run entryEdits := by decide +kernel

theorem outline_sound_empty : empty.outline.Sound := ⟨.nil, by simp [empty, outline],
  by simp [empty, outline], by simp [empty, outline]⟩

variable {start : Script}

theorem IsStart.exists_run (h : start.IsStart) :
    ∃ made, start = Script.empty.run made ∧ ∀ e ∈ made, e.changesKind = false := by
  cases h with
  | empty => exact ⟨[], rfl, by simp⟩
  | authored => exact ⟨entryEdits, withEntries_eq_run, by decide⟩

theorem IsStart.outline_sound (h : start.IsStart) : start.outline.Sound := by
  cases h with
  | empty => exact outline_sound_empty
  | authored =>
    rw [withEntries_eq_run]
    exact (outline_sound_run outline_sound_empty (by decide)).1

theorem IsStart.toNat_ids (h : start.IsStart) :
    start.outline.ids.map UInt32.toNat = List.range start.nextId.toNat := by
  cases h <;> rfl

theorem IsStart.increasing_issued (h : start.IsStart) {edits : List Edit}
    (room : start.nextId.toNat + edits.countP Edit.creates < 2 ^ 32) :
    (start.outline.ids ++ start.issued edits).Pairwise (· < ·) := by
  have issued := (outline_sound_run h.outline_sound room).2
  have counted : (start.outline.ids ++ start.issued edits).map UInt32.toNat =
      List.range (start.nextId.toNat + edits.countP Edit.creates) := by
    rw [List.map_append, h.toNat_ids, issued, List.range_eq_range', List.range_eq_range',
      ← List.range'_append_1, Nat.zero_add]
  have increasing := counted ▸ List.pairwise_lt_range
  rw [List.pairwise_map] at increasing
  exact increasing.imp UInt32.lt_iff_toNat_lt.mpr

end Script

end MarkerLattice
