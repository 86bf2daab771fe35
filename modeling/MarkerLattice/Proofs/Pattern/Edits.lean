import Mathlib
import MarkerLattice.Pattern
import MarkerLattice.Proofs.Keyed

/-! Patterns that are built rule by rule. The rules lie at distinct places and stand in
the order in which the places were taken. What lies at a place is the outcome of the
edits there and of no others. -/
namespace MarkerLattice

def Rule.place (r : Rule) : Offset × SubCell := (r.offset, r.part)

theorem Rule.isAt_eq (offset : Offset) (part : SubCell) :
    (fun r : Rule => r.isAt offset part) = fun r => decide (r.place = (offset, part)) := by
  funext r
  simp [isAt, place]

namespace Pattern

inductive Edit where
  | add (offset : Offset) (part : SubCell)
  /-- Through the rule that was returned or looked up at a place. -/
  | modify (offset : Offset) (part : SubCell) (f : Rule → Rule)
  | remove (offset : Offset) (part : SubCell)

namespace Edit

def place : Edit → Offset × SubCell
  | add offset part | modify offset part _ | remove offset part => (offset, part)

def Keeps : Edit → Prop
  | add .. | remove .. => True
  | modify offset part f => ∀ r, r.place = (offset, part) → (f r).place = (offset, part)

theorem Keeps.place_eq {offset : Offset} {part : SubCell} {f : Rule → Rule}
    (keeps : (modify offset part f).Keeps) (r : Rule) :
    (if r.place = (offset, part) then f r else r).place = r.place := by
  split
  next here => rw [keeps r here, here]
  next => rfl

def apply (r? : Option Rule) : Edit → Option Rule
  | add offset part => some (r?.getD (.fresh offset part))
  | modify _ _ f => r?.map f
  | remove .. => none

def order (places : List (Offset × SubCell)) : Edit → List (Offset × SubCell)
  | add offset part => if (offset, part) ∈ places then places else places ++ [(offset, part)]
  | modify .. => places
  | remove offset part => places.erase (offset, part)

theorem nodup_order {places : List (Offset × SubCell)} (distinct : places.Nodup) (e : Edit) :
    (e.order places).Nodup := by
  cases e with
  | add offset part =>
    simp only [order]
    split
    next => exact distinct
    next absent => exact List.nodup_append_comm.mp (List.nodup_cons.mpr ⟨absent, distinct⟩)
  | modify => exact distinct
  | remove => exact distinct.erase _

end Edit

def edit (p : Pattern) : Edit → Pattern
  | .add offset part => (p.addRule offset part).2
  | .modify offset part f => p.modifyRule offset part f
  | .remove offset part => (p.removeRule offset part).2

def ofEdits (edits : List Edit) : Pattern := edits.foldl edit empty

/-- What the edits at a place leave there. -/
def ruleAfter (edits : List Edit) (place : Offset × SubCell) : Option Rule :=
  (edits.filter (·.place = place)).foldl Edit.apply none

theorem ruleAfter_concat (edits : List Edit) (e : Edit) (place : Offset × SubCell) :
    ruleAfter (edits ++ [e]) place =
      if place = e.place then e.apply (ruleAfter edits place) else ruleAfter edits place := by
  unfold ruleAfter
  rw [List.filter_append, List.foldl_append]
  split
  next here => simp [here]
  next other => simp [Ne.symm other]

variable {p : Pattern} {offset : Offset} {part : SubCell} {r : Rule}

theorem rule?_eq (p : Pattern) (offset : Offset) (part : SubCell) :
    p.rule? offset part = p.rules.find? fun r => r.place = (offset, part) := by
  rw [rule?, Rule.isAt_eq]

theorem rule?_eq_none_iff :
    p.rule? offset part = none ↔ (offset, part) ∉ p.rules.map Rule.place := by
  simp [rule?_eq]

theorem addRule_of_rule?_eq_some (h : p.rule? offset part = some r) :
    p.addRule offset part = (r, p) := by
  unfold addRule
  rw [h]

theorem addRule_of_rule?_eq_none (h : p.rule? offset part = none) :
    p.addRule offset part = (.fresh offset part, ⟨p.rules ++ [.fresh offset part]⟩) := by
  unfold addRule
  rw [h]

section Distinct

variable (distinct : (p.rules.map Rule.place).Nodup)
include distinct

theorem rule?_eq_some_iff :
    p.rule? offset part = some r ↔ r ∈ p.rules ∧ r.place = (offset, part) := by
  rw [rule?_eq]
  exact find?_key_eq_some_iff distinct

theorem modifyRule_eq (f : Rule → Rule) : p.modifyRule offset part f =
    ⟨p.rules.map fun r => if r.place = (offset, part) then f r else r⟩ := by
  rw [modifyRule, Rule.isAt_eq, modifyFirst_key distinct]

theorem removeRule_eq : p.removeRule offset part =
    (decide ((offset, part) ∈ p.rules.map Rule.place),
      ⟨p.rules.filter fun r => r.place ≠ (offset, part)⟩) := by
  have found : (p.rule? offset part).isSome = decide ((offset, part) ∈ p.rules.map Rule.place) := by
    rw [Bool.eq_iff_iff, decide_eq_true_iff, Option.isSome_iff_ne_none, Ne, rule?_eq_none_iff,
      not_not]
  rw [removeRule, found, Rule.isAt_eq, eraseP_key distinct]

theorem places_edit {e : Edit} (keeps : e.Keeps) :
    (p.edit e).rules.map Rule.place = e.order (p.rules.map Rule.place) := by
  cases e with
  | add offset part =>
    simp only [edit, Edit.order]
    cases found : p.rule? offset part with
    | none => simp [addRule_of_rule?_eq_none found, rule?_eq_none_iff.mp found, Rule.place, Rule.fresh]
    | some r =>
      obtain ⟨mem, here⟩ := (rule?_eq_some_iff distinct).mp found
      rw [addRule_of_rule?_eq_some found, if_pos (here ▸ List.mem_map_of_mem mem)]
  | modify offset part f =>
    rw [edit, modifyRule_eq distinct, List.map_map]
    apply List.map_congr_left
    intro r _
    exact keeps.place_eq r
  | remove offset part =>
    rw [edit, removeRule_eq distinct, Edit.order, distinct.erase_eq_filter, List.filter_map]
    apply congrArg (List.map Rule.place)
    apply List.filter_congr
    intro r _
    rw [Bool.eq_iff_iff]
    simp

/-- An edit tells what lies at its own place from what was there, and no more. -/
theorem rule?_edit {e : Edit} (keeps : e.Keeps) (offset : Offset) (part : SubCell) :
    (p.edit e).rule? offset part = if (offset, part) = e.place then
      e.apply (p.rule? offset part) else p.rule? offset part := by
  cases e with
  | add offset' part' =>
    rw [edit, Edit.place]
    cases found : p.rule? offset' part' with
    | some r =>
      rw [addRule_of_rule?_eq_some found]
      split
      next here =>
        cases here
        rw [found]
        rfl
      next => rfl
    | none =>
      rw [addRule_of_rule?_eq_none found, rule?_eq, List.find?_append, ← rule?_eq]
      split
      next here =>
        cases here
        simp [found, Edit.apply, Rule.place, Rule.fresh]
      next other =>
        have apart : (Rule.fresh offset' part').place ≠ (offset, part) := Ne.symm other
        simp [apart]
  | modify offset' part' f =>
    rw [edit, modifyRule_eq distinct, Edit.place, rule?_eq, rule?_eq, List.find?_map]
    simp only [Function.comp_def, keeps.place_eq]
    cases found : p.rules.find? fun r => r.place = (offset, part) with
    | none => simp [Edit.apply]
    | some r =>
      have here : r.place = (offset, part) := by simpa using List.find?_some found
      simp only [Option.map_some, here, Edit.apply]
      split
      · rfl
      · rfl
  | remove offset' part' =>
    rw [edit, removeRule_eq distinct, Edit.place, rule?_eq, rule?_eq, List.find?_filter]
    split
    next here =>
      cases here
      simp [Edit.apply]
    next other =>
      congr 1
      funext r
      by_cases here : r.place = (offset, part)
      · simp [here, other]
      · simp [here]

end Distinct

/-- A pattern is what some edits tell of its places. -/
structure Follows (p : Pattern) (edits : List Edit) : Prop where
  distinct : (p.rules.map Rule.place).Nodup
  places : p.rules.map Rule.place = edits.foldl Edit.order []
  rule (offset : Offset) (part : SubCell) : p.rule? offset part = ruleAfter edits (offset, part)

theorem Follows.edit {edits : List Edit} (h : p.Follows edits) {e : Edit} (keeps : e.Keeps) :
    (p.edit e).Follows (edits ++ [e]) where
  distinct := by
    rw [places_edit h.distinct keeps]
    exact Edit.nodup_order h.distinct e
  places := by rw [places_edit h.distinct keeps, h.places, List.foldl_append, List.foldl_cons,
    List.foldl_nil]
  rule offset part := by rw [rule?_edit h.distinct keeps, ruleAfter_concat, h.rule]

theorem follows_ofEdits {edits : List Edit} (keeps : ∀ e ∈ edits, e.Keeps) :
    (ofEdits edits).Follows edits := by
  induction edits using List.reverseRecOn with
  | nil => exact ⟨List.nodup_nil, rfl, fun _ _ => rfl⟩
  | append_singleton edits e ih =>
    rw [ofEdits, List.foldl_append]
    apply (ih fun e' mem => keeps e' (by simp [mem])).edit
    exact keeps e (by simp)

/-- A pattern that is built from nothing has at most one rule at a place. Its places are in the
order in which they were taken, and what lies at one is the outcome of the edits there. A
rule is found at its own place only. Adding returns the rule that is there and changes nothing,
or appends a fresh one; modifying changes that one rule; removing takes it out of the others
and tells whether it was there. -/
theorem ofEdits_keyed {edits : List Edit} (keeps : ∀ e ∈ edits, e.Keeps) :
    let p := ofEdits edits
    (p.rules.map Rule.place).Nodup ∧ p.rules.map Rule.place = edits.foldl Edit.order [] ∧
      ∀ offset part,
        p.rule? offset part = ruleAfter edits (offset, part) ∧
        (∀ r, p.rule? offset part = some r ↔ r ∈ p.rules ∧ r.place = (offset, part)) ∧
        (∀ r, p.rule? offset part = some r → p.addRule offset part = (r, p)) ∧
        (p.rule? offset part = none →
          p.addRule offset part = (.fresh offset part, ⟨p.rules ++ [.fresh offset part]⟩)) ∧
        (∀ f, p.modifyRule offset part f =
          ⟨p.rules.map fun r => if r.place = (offset, part) then f r else r⟩) ∧
        p.removeRule offset part = (decide ((offset, part) ∈ p.rules.map Rule.place),
          ⟨p.rules.filter fun r => r.place ≠ (offset, part)⟩) := by
  intro p
  have h : p.Follows edits := follows_ofEdits keeps
  exact ⟨h.distinct, h.places, fun offset part => ⟨h.rule offset part,
    fun r => rule?_eq_some_iff h.distinct, fun r => addRule_of_rule?_eq_some,
    addRule_of_rule?_eq_none, modifyRule_eq h.distinct, removeRule_eq h.distinct⟩⟩

def insertingRule : Rule := { Rule.fresh ⟨0, 0⟩ .ground with inserts := true }

def regrouping : List Edit :=
  [.add ⟨0, 0⟩ .ground, .modify ⟨0, 0⟩ .ground fun r => { r with inserts := true },
    .add ⟨1, 0⟩ .edgeX, .add ⟨0, 0⟩ .ground, .remove ⟨1, 0⟩ .edgeX, .add ⟨1, 0⟩ .ground,
    .add ⟨1, 0⟩ .edgeX]

theorem ofEdits_keyed_regrouping :
    (∀ e ∈ regrouping, e.Keeps) ∧
      (ofEdits regrouping).rules.map Rule.place =
        [(⟨0, 0⟩, .ground), (⟨1, 0⟩, .ground), (⟨1, 0⟩, .edgeX)] ∧
      (ofEdits regrouping).addRule ⟨0, 0⟩ .ground = (insertingRule, ofEdits regrouping) ∧
      (ofEdits regrouping).addRule ⟨1, 0⟩ .corner =
        (.fresh ⟨1, 0⟩ .corner, ⟨(ofEdits regrouping).rules ++ [.fresh ⟨1, 0⟩ .corner]⟩) ∧
      ((ofEdits regrouping).removeRule ⟨1, 0⟩ .edgeX).1 = true := by
  have keeps : ∀ e ∈ regrouping, e.Keeps := by
    simp only [regrouping, List.forall_mem_cons, Edit.Keeps, true_and]
    exact ⟨fun r here => here, by simp⟩
  obtain ⟨-, places, at_place⟩ := ofEdits_keyed keeps
  obtain ⟨first, -, present, -⟩ := at_place ⟨0, 0⟩ .ground
  obtain ⟨fourth, -, -, absent, -⟩ := at_place ⟨1, 0⟩ .corner
  obtain ⟨-, -, -, -, -, third⟩ := at_place ⟨1, 0⟩ .edgeX
  refine ⟨keeps, places.trans (by decide), present _ (first.trans (by decide)),
    absent (fourth.trans (by decide)), ?_⟩
  rw [third, places]
  decide

end Pattern

end MarkerLattice
