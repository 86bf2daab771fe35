import Mathlib
import MarkerLattice.Proofs.Script.Shape

/-! Links of a script that editing leads to. Every link leads to a pin of the
other side that carries the same signal on another node, and the links of the
returning side of a signal are mutual. -/
namespace MarkerLattice.Script

/-- What a link of a pin means for the pin that it leads to. -/
structure Wired (s : Script) : Prop where
  sound : ∀ a b, s.far? a = some b →
    a.node ≠ b.node ∧ ∃ g, s.signal? a = some g ∧ s.signal? b = some g
  back : ∀ a b g, s.far? a = some b → s.signal? a = some g → g.returned = a.direction →
    s.far? b = some a

variable {s t : Script}

theorem direction_of_far? {a b : Port} (h : s.far? a = some b) :
    b.direction = a.direction.opposite :=
  ((s.far?_eq_some_iff a b).mp h).2

theorem Wired.extend (h : s.Wired) (far : ∀ a, t.far? a = s.far? a)
    (signal : ∀ a g, s.signal? a = some g → t.signal? a = some g) : t.Wired where
  sound a b hab := by
    obtain ⟨apart, g, ha, hb⟩ := h.sound a b (far a ▸ hab)
    exact ⟨apart, g, signal a g ha, signal b g hb⟩
  back a b g hab hg side := by
    rw [far] at hab ⊢
    obtain ⟨-, g', ha, -⟩ := h.sound a b hab
    obtain rfl : g' = g := Option.some.inj ((signal a g' ha).symm.trans hg)
    exact h.back a b g' hab ha side

theorem Wired.unlink (h : s.Wired) (a : Port) :
    (s.unlink a.node a.pin a.direction).Wired where
  sound c b hcb := by
    simp only [far?_unlink] at hcb
    split at hcb
    · cases hcb
    · simpa using h.sound c b hcb
  back c b g hcb hg side := by
    simp only [far?_unlink, signal?_unlink] at hcb hg ⊢
    split at hcb
    · cases hcb
    next kept =>
      have hbc := h.back c b g hcb hg side
      have other : b ≠ a := by
        rintro rfl
        exact kept (.inr ⟨hbc, hcb⟩)
      have open_ : ¬ (s.far? a = some b ∧ s.far? b = some a) := by
        rintro ⟨-, hba⟩
        exact kept (.inl (Option.some.inj (hbc.symm.trans hba)))
      rw [if_neg (by simp [other, open_])]
      exact hbc

theorem eq_soleEnd {g : Signal} {o i b : Port} (output : o.direction = .output)
    (input : i.direction = .input) (across : b.direction = g.returned.opposite)
    (atEnd : b = o ∨ b = i) : b = soleEnd g o i := by
  rcases atEnd with rfl | rfl
  · cases g
    · simp [output, Signal.returned, Direction.opposite] at across
    · rfl
  · cases g
    · rfl
    · simp [input, Signal.returned, Direction.opposite] at across

section Connect

variable {o i : Port} {g : Signal} (apart : o.node ≠ i.node) (output : o.direction = .output)
  (input : i.direction = .input) (ho : s.signal? o = some g) (hi : s.signal? i = some g)

include output input ho hi

theorem far?_connect_soleEnd (c : Port) : (s.connect (soleEnd g o i) o i).far? c =
    if c = i then some o else if c = o then some i
    else if s.far? (soleEnd g o i) = some c ∧ s.far? c = some (soleEnd g o i) then none
    else s.far? c := by
  apply far?_connect
  · rw [output, input]
    rfl
  · cases g <;> simp [soleEnd]
  · simp [ho]
  · simp [hi]

theorem far?_connect_cases {c b : Port}
    (h : (s.connect (soleEnd g o i) o i).far? c = some b) :
    c = i ∧ b = o ∨ c = o ∧ b = i ∨
      (c ≠ i ∧ c ≠ o) ∧ s.far? c = some b ∧
        ¬ (s.far? (soleEnd g o i) = some c ∧ s.far? c = some (soleEnd g o i)) := by
  rw [far?_connect_soleEnd output input ho hi] at h
  split at h
  next atI => exact .inl ⟨atI, (Option.some.inj h).symm⟩
  next notI =>
    split at h
    next atO => exact .inr (.inl ⟨atO, (Option.some.inj h).symm⟩)
    next notO =>
      split at h
      · cases h
      next kept => exact .inr (.inr ⟨⟨notI, notO⟩, h, kept⟩)

include apart in
theorem Wired.connect (h : s.Wired) : (s.connect (soleEnd g o i) o i).Wired := by
  have far := far?_connect_soleEnd output input ho hi
  have distinct : o ≠ i := fun same => apart (congrArg Port.node same)
  constructor
  · intro c b hcb
    simp only [signal?_connect]
    rcases far?_connect_cases output input ho hi hcb with ⟨rfl, rfl⟩ | ⟨rfl, rfl⟩ | ⟨-, old, -⟩
    · exact ⟨apart.symm, g, hi, ho⟩
    · exact ⟨apart, g, ho, hi⟩
    · exact h.sound c b old
  · intro c b g' hcb hg side
    rw [signal?_connect] at hg
    rcases far?_connect_cases output input ho hi hcb with
      ⟨rfl, rfl⟩ | ⟨rfl, rfl⟩ | ⟨elsewhere, old, kept⟩
    · rw [far, if_neg distinct, if_pos rfl]
    · rw [far, if_pos rfl]
    · have hbc := h.back c b g' old hg side
      obtain ⟨-, g'', hc, hb⟩ := h.sound c b old
      obtain rfl : g'' = g' := Option.some.inj (hc.symm.trans hg)
      have across := direction_of_far? old
      rw [← side] at across
      -- An end that `c` leads to for a return would be the one that was freed.
      have between : ¬ (b = o ∨ b = i) := by
        intro atEnd
        obtain rfl : g'' = g := by
          rcases atEnd with rfl | rfl
          · exact Option.some.inj (hb.symm.trans ho)
          · exact Option.some.inj (hb.symm.trans hi)
        rw [← eq_soleEnd output input across atEnd] at kept
        exact kept ⟨hbc, old⟩
      have stays : ¬ (s.far? (soleEnd g o i) = some b ∧ s.far? b = some (soleEnd g o i)) := by
        rintro ⟨-, hbx⟩
        obtain rfl := Option.some.inj (hbc.symm.trans hbx)
        cases g
        · exact elsewhere.1 rfl
        · exact elsewhere.2 rfl
      rw [not_or] at between
      rw [far, if_neg between.2, if_neg between.1, if_neg stays]
      exact hbc

end Connect

theorem far?_createNode (s : Script) (kind : NodeKind) (a : Port) :
    (s.createNode kind).2.far? a = s.far? a := by
  simp only [far?, pinAt?, pin?, node?_createNode]
  cases s.node? a.node with
  | some n => rfl
  | none =>
    simp only [Option.none_or]
    split
    · cases hp : (Node.ofKind a.node kind).pin? a.pin a.direction with
      | none => simp [hp]
      | some p => simp [hp, Node.link_of_pin?_ofKind hp]
    · rfl

theorem signal?_createNode {a : Port} {g : Signal} (h : s.signal? a = some g)
    (kind : NodeKind) : (s.createNode kind).2.signal? a = some g := by
  simp only [signal?, pinAt?, pin?, node?_createNode] at h ⊢
  cases hn : s.node? a.node with
  | none => simp [hn] at h
  | some n => simpa [hn] using h

theorem pinAt?_setKind (s : Script) (id : NodeId) (kind : NodeKind) (a : Port) :
    (s.setKind id kind).pinAt? a = s.pinAt? a := by
  simp only [pinAt?, pin?, setKind, node?_modifyNode s id (f := fun n => { n with kind })
    fun _ => rfl]
  split
  · cases s.node? a.node <;> rfl
  · rfl

theorem wired_edit (h : s.Wired) (e : Edit) : (s.edit e).Wired := by
  rcases s.edit_done_or_refused e with done | ⟨-, refused⟩
  case inr => rwa [refused]
  cases e with
  | createNode kind =>
    exact h.extend (far?_createNode s kind) fun a g hg => signal?_createNode hg kind
  | link source output target input =>
    obtain ⟨apart, g, ho, hi, linked⟩ := link_eq_ok_iff.mp done
    rw [linked]
    exact Wired.connect apart rfl rfl ho hi h
  | unlink id pin d => exact h.unlink ⟨id, pin, d⟩
  | setDefault id pin text =>
    obtain ⟨-, set⟩ := setDefault_eq_ok_iff.mp done
    have pins (a : Port) := s.pinAt?_modifyPin ⟨id, pin, .input⟩ a
      fun p => { p with defaultText := text }
    rw [set]
    apply h.extend
    · intro a
      rw [far?, pins]
      split
      · cases ha : s.pinAt? a <;> simp [far?, ha]
      · rfl
    · intro a g hg
      rw [signal?, pins]
      split
      · cases ha : s.pinAt? a <;> simp_all [signal?]
      · exact hg
  | setResult id =>
    obtain ⟨-, set⟩ := setResult_eq_ok_iff.mp done
    rw [set]
    exact h.extend (fun _ => rfl) fun _ _ hg => hg
  | setPass id =>
    obtain ⟨-, set⟩ := setPass_eq_ok_iff.mp done
    rw [set]
    exact h.extend (fun _ => rfl) fun _ _ hg => hg
  | setKind id kind =>
    have pins (a : Port) : (s.edit (.setKind id kind)).pinAt? a = s.pinAt? a :=
      s.pinAt?_setKind id kind a
    exact h.extend (fun a => by rw [far?, pins, far?])
      fun a g hg => by rwa [signal?, pins]
  | clear => exact ⟨by simp [edit, edit?, clear, far?, pinAt?, pin?, node?],
      by simp [edit, edit?, clear, far?, pinAt?, pin?, node?]⟩

theorem wired_run (h : s.Wired) (edits : List Edit) : (s.run edits).Wired := by
  induction edits generalizing s with
  | nil => exact h
  | cons e rest ih => exact ih (wired_edit h e)

theorem wired_empty : empty.Wired := ⟨by simp [empty, far?, pinAt?, pin?, node?],
  by simp [empty, far?, pinAt?, pin?, node?]⟩

/-- A script as its editing leaves it. -/
structure WellFormed (s : Script) : Prop where
  increasing : (s.nodes.map Node.id).Pairwise (· < ·)
  below : ∀ n ∈ s.nodes, n.id < s.nextId
  result : ∀ id, s.resultId = some id → ∃ n ∈ s.nodes, n.id = id
  pass : ∀ id, s.passId = some id → ∃ n ∈ s.nodes, n.id = id
  linked : ∀ n ∈ s.nodes, ∀ name d p l, n.pin? name d = some p → p.link = some l →
    ∃ m ∈ s.nodes, m.id = l.node ∧ m.id ≠ n.id ∧ ∃ q, m.pin? l.pin d.opposite = some q ∧
      q.direction = p.direction.opposite ∧ q.signal = p.signal
  exec_back : ∀ n ∈ s.nodes, ∀ name p l, n.pin? name .input = some p → p.signal = .exec →
    p.link = some l → ∀ m ∈ s.nodes, m.id = l.node →
      ∀ q, m.pin? l.pin .output = some q → q.link = some ⟨n.id, name⟩
  bool_back : ∀ n ∈ s.nodes, ∀ name p l, n.pin? name .output = some p → p.signal = .bool →
    p.link = some l → ∀ m ∈ s.nodes, m.id = l.node →
      ∀ q, m.pin? l.pin .input = some q → q.link = some ⟨n.id, name⟩

section WellFormed

variable {n m : Node} {name : String} {d : Direction} {p q : Pin} {l : Link}

theorem pinAt?_of_node? (hn : s.node? n.id = some n) (hp : n.pin? name d = some p) :
    s.pinAt? ⟨n.id, name, d⟩ = some p := by
  simp [pinAt?, pin?, hn, hp]

theorem far?_of_node? (hn : s.node? n.id = some n) (hp : n.pin? name d = some p)
    (hl : p.link = some l) : s.far? ⟨n.id, name, d⟩ = some (l.port d.opposite) := by
  simp [far?, pinAt?_of_node? hn hp, hl]

theorem Wired.linked (h : s.Wired) (hn : s.node? n.id = some n)
    (hp : n.pin? name d = some p) (hl : p.link = some l) :
    ∃ m, s.node? l.node = some m ∧ m.id ≠ n.id ∧
      ∃ q, m.pin? l.pin d.opposite = some q ∧ q.signal = p.signal := by
  obtain ⟨apart, g, hg, hq⟩ := h.sound _ _ (far?_of_node? hn hp hl)
  obtain ⟨p', hp', rfl⟩ := (s.signal?_eq_some_iff _).mp hg
  obtain rfl : p = p' := Option.some.inj ((pinAt?_of_node? hn hp).symm.trans hp')
  obtain ⟨q, hq, same⟩ := (s.signal?_eq_some_iff _).mp hq
  obtain ⟨m, hm, hq⟩ := Option.bind_eq_some_iff.mp hq
  have id := id_of_node? hm
  exact ⟨m, hm, id ▸ apart.symm, q, hq, same⟩

theorem Wired.returned (h : s.Wired) (hn : s.node? n.id = some n)
    (hp : n.pin? name d = some p) (hl : p.link = some l) (side : p.signal.returned = d)
    (hm : s.node? l.node = some m) (hq : m.pin? l.pin d.opposite = some q) :
    q.link = some ⟨n.id, name⟩ := by
  have signal : s.signal? ⟨n.id, name, d⟩ = some p.signal :=
    (s.signal?_eq_some_iff _).mpr ⟨p, pinAt?_of_node? hn hp, rfl⟩
  have back := h.back _ _ _ (far?_of_node? hn hp hl) signal side
  obtain ⟨⟨q', hq', link⟩, -⟩ := (s.far?_eq_some_iff _ _).mp back
  have read : s.pinAt? (l.port d.opposite) = some q := by
    simp [pinAt?, pin?, Link.port, hm, hq]
  obtain rfl : q = q' := Option.some.inj (read.symm.trans hq')
  exact link

theorem wellFormed_of_wired (sound : s.outline.Sound) (wired : s.Wired) (shaped : s.Shaped) :
    s.WellFormed := by
  have node {n : Node} (hn : n ∈ s.nodes) : s.node? n.id = some n :=
    node?_of_mem sound.nodup hn
  have entry {id : NodeId} (h : id ∈ s.outline.ids) : ∃ n ∈ s.nodes, n.id = id :=
    List.mem_map.mp h
  refine ⟨sound.increasing, fun n hn => sound.below _ (List.mem_map_of_mem hn),
    fun id h => entry (sound.result id h), fun id h => entry (sound.pass id h), ?_, ?_, ?_⟩
  · intro n hn name d p l hp hl
    obtain ⟨m, hm, apart, q, hq, signal⟩ := wired.linked (node hn) hp hl
    obtain ⟨k, hk⟩ := shaped _ n (node hn)
    obtain ⟨k', hk'⟩ := shaped _ m hm
    refine ⟨m, List.mem_of_find?_eq_some hm, id_of_node? hm, apart, q, hq, ?_, signal⟩
    rw [hk'.direction hq, hk.direction hp]
  · intro n hn name p l hp exec hl m hm id q hq
    exact wired.returned (node hn) hp hl (by rw [exec]; rfl) (id ▸ node hm) hq
  · intro n hn name p l hp bool hl m hm id q hq
    exact wired.returned (node hn) hp hl (by rw [bool]; rfl) (id ▸ node hm) hq

end WellFormed

theorem IsStart.wired_run {start : Script} (h : start.IsStart) (edits : List Edit) :
    (start.run edits).Wired := by
  obtain ⟨made, rfl, -⟩ := h.exists_run
  exact Script.wired_run (Script.wired_run wired_empty made) edits

/-- Every run of editing steps leaves a well-formed script and hands out each
identifier once, as long as there are identifiers. The two entries of an authored
script have used up the first two. -/
theorem wellFormed_run {start : Script} (h : start.IsStart) {edits : List Edit}
    (room : start.nextId.toNat + edits.countP Edit.creates < 2 ^ 32) :
    (start.run edits).WellFormed ∧
      (start.nodes.map Node.id ++ start.issued edits).Pairwise (· < ·) :=
  ⟨wellFormed_of_wired (outline_sound_run h.outline_sound room).1 (h.wired_run edits)
    (h.shaped_run edits), h.increasing_issued room⟩

def relinking : List Edit :=
  [.createNode (.markerExists "Wall"), .createNode (.markerExists "Door"),
    .link 2 Pin.defaultOutput 0 Pin.select, .link 3 Pin.defaultOutput 0 Pin.select,
    .setKind 2 .logicalNot, .link 2 Pin.defaultOutput 2 Pin.defaultInput, .clear,
    .createNode .logicalNot]

theorem wellFormed_relinking :
    withEntries.nextId.toNat + relinking.countP Edit.creates < 2 ^ 32 ∧
      (withEntries.run relinking).WellFormed ∧ withEntries.issued relinking = [2, 3, 4] ∧
      (withEntries.nodes.map Node.id ++ withEntries.issued relinking).Pairwise (· < ·) := by
  have room : withEntries.nextId.toNat + relinking.countP Edit.creates < 2 ^ 32 := by
    decide +kernel
  obtain ⟨wellFormed, increasing⟩ := wellFormed_run .authored room
  exact ⟨room, wellFormed, by decide +kernel, increasing⟩

end MarkerLattice.Script
