import Mathlib
import MarkerLattice.Proofs.Pattern.Reorder

/-! The turn of an orientation is a rigid motion: the centre of every slot moves by
a quarter turn about the centre of the origin cell. The bounds follow tightly, and
four turns are none. -/
namespace MarkerLattice

def Vec2.quarterTurn (v : Vec2 ℚ) : Vec2 ℚ := ⟨1 / 2 - (v.y - 1 / 2), 1 / 2 + (v.x - 1 / 2)⟩

theorem Vec2.quarterTurn_four (v : Vec2 ℚ) : quarterTurn^[4] v = v := by
  obtain ⟨x, y⟩ := v
  simp only [Function.iterate_succ, Function.iterate_zero, Function.comp, quarterTurn, id]
  congr 1 <;> ring

theorem SubCell.turned_four (part : SubCell) : turned^[4] part = part := by
  cases part <;> rfl

namespace Slot

def centre (s : Slot) : Vec2 ℚ where
  x := s.coord.x + s.part.offset.x.toRat
  y := s.coord.y + s.part.offset.y.toRat

theorem centre_turned (s : Slot) : s.turned.centre = s.centre.quarterTurn := by
  obtain ⟨⟨x, y⟩, part⟩ := s
  cases part <;>
    simp only [turned, centre, Vec2.quarterTurn, SubCell.turned, SubCell.offset,
      Binary32.denotes_half.toRat, Binary32.denotes_zero.toRat, Vec2.mk.injEq] <;>
    push_cast <;> constructor <;> ring

theorem eq_of_centre {s t : Slot} (part : s.part = t.part) (centre : s.centre = t.centre) :
    s = t := by
  obtain ⟨⟨x, y⟩, p⟩ := s
  obtain ⟨⟨x', y'⟩, p'⟩ := t
  obtain rfl : p = p' := part
  simpa [Slot.centre] using centre

end Slot

/-- `r'` is the rule `r` after some quarter turns. -/
structure PlacedRule.IsTurn (n : ℕ) (r r' : PlacedRule) : Prop where
  script : r'.script = r.script
  inserts : r'.inserts = r.inserts
  part : r'.part = SubCell.turned^[n] r.part
  centre : r'.place.centre = Vec2.quarterTurn^[n] r.place.centre

namespace PlacedRule

variable {r r' : PlacedRule} {n : ℕ}

theorem isTurn_refl (r : PlacedRule) : r.IsTurn 0 r := ⟨rfl, rfl, rfl, rfl⟩

theorem IsTurn.turned (h : r.IsTurn n r') (within : r'.Within (2 ^ 23 - 2)) :
    r.IsTurn (n + 1) r'.turned where
  script := h.script
  inserts := h.inserts
  part := by
    rw [Function.iterate_succ_apply', ← h.part]
    rfl
  centre := by
    rw [place_turned within, Slot.centre_turned, h.centre, Function.iterate_succ_apply']

theorem IsTurn.eq (h : r.IsTurn 4 r') : r' = r := by
  have part : r'.part = r.part := h.part.trans (SubCell.turned_four _)
  have place : r'.place = r.place :=
    Slot.eq_of_centre part (h.centre.trans (Vec2.quarterTurn_four _))
  have coord : r'.coord = r.coord := congrArg Slot.coord place
  have script := h.script
  have inserts := h.inserts
  cases r
  cases r'
  simp_all

end PlacedRule

namespace Orientation

structure IsTurn (n : ℕ) (o o' : Orientation) : Prop where
  rules : List.Forall₂ (PlacedRule.IsTurn n) o.rules o'.rules
  quarterTurns : o'.quarterTurns = o.quarterTurns + n

theorem isTurn_refl (o : Orientation) : o.IsTurn 0 o :=
  ⟨List.forall₂_same.mpr fun r _ => r.isTurn_refl, by simp⟩

theorem IsTurn.turned {n : ℕ} {o o' : Orientation} (h : o.IsTurn n o')
    (within : o'.Within (2 ^ 23 - 2)) : o.IsTurn (n + 1) o'.turned where
  rules := by
    have near := (List.forall₂_and_left ..).mpr ⟨within, h.rules.flip⟩
    rw [rules_turned, List.forall₂_map_right_iff]
    exact near.flip.imp fun r r' hr => hr.2.turned hr.1
  quarterTurns := by
    simp only [Orientation.turned, quarterTurns_ofRules, h.quarterTurns, Nat.cast_succ,
      add_assoc]

theorem IsTurn.rules_eq {o o' : Orientation} (h : o.IsTurn 4 o') : o'.rules = o.rules := by
  have same : List.Forall₂ (· = ·) o'.rules o.rules := h.rules.flip.imp fun _ _ hr => hr.eq
  simpa using same

def columns (o : Orientation) : Set ℤ := {x | ∃ r ∈ o.rules, r.coord.x = x}

def rows (o : Orientation) : Set ℤ := {y | ∃ r ∈ o.rules, r.coord.y = y}

/-- The bounds are the least box around the rules. -/
structure Tight (o : Orientation) : Prop where
  low : o.rules ≠ [] → IsLeast o.columns o.low.x ∧ IsLeast o.rows o.low.y
  high : o.rules ≠ [] → IsGreatest o.columns o.high.x ∧ IsGreatest o.rows o.high.y
  none : o.rules = [] → o.low = .zero ∧ o.high = .zero

section Bounds

variable (pick : Coord → Coord → Coord) (f : Coord → ℤ)

theorem isLeast_foldl (h : ∀ a b, f (pick a b) = min (f a) (f b)) (c : Coord)
    (cs : List Coord) : IsLeast {k | ∃ d ∈ c :: cs, f d = k} (f (cs.foldl pick c)) := by
  have fold : (cs.map f).foldl min (f c) = f (cs.foldl pick c) := by
    rw [List.foldl_map]
    exact List.foldl_hom f fun a b => (h a b).symm
  have least := List.min?_eq_some_iff.mp (@List.min?_cons' _ (f c) _ (cs.map f))
  rw [fold, ← List.map_cons] at least
  refine ⟨List.mem_map.mp least.1, ?_⟩
  rintro k ⟨d, hd, rfl⟩
  exact least.2 _ (List.mem_map_of_mem hd)

theorem isGreatest_foldl (h : ∀ a b, f (pick a b) = max (f a) (f b)) (c : Coord)
    (cs : List Coord) : IsGreatest {k | ∃ d ∈ c :: cs, f d = k} (f (cs.foldl pick c)) := by
  have fold : (cs.map f).foldl max (f c) = f (cs.foldl pick c) := by
    rw [List.foldl_map]
    exact List.foldl_hom f fun a b => (h a b).symm
  have greatest := List.max?_eq_some_iff.mp (@List.max?_cons' _ (f c) _ (cs.map f))
  rw [fold, ← List.map_cons] at greatest
  refine ⟨List.mem_map.mp greatest.1, ?_⟩
  rintro k ⟨d, hd, rfl⟩
  exact greatest.2 _ (List.mem_map_of_mem hd)

end Bounds

theorem tight_ofRules (rules : List PlacedRule) (angle : Binary32) (n : ℤ) :
    (ofRules rules angle n).Tight := by
  cases rules with
  | nil => exact ⟨by simp, by simp, fun _ => ⟨rfl, rfl⟩⟩
  | cons r rest =>
    have left := isLeast_foldl .lower Coord.x (fun _ _ => rfl) r.coord
      (rest.map PlacedRule.coord)
    have bottom := isLeast_foldl .lower Coord.y (fun _ _ => rfl) r.coord
      (rest.map PlacedRule.coord)
    have right := isGreatest_foldl .upper Coord.x (fun _ _ => rfl) r.coord
      (rest.map PlacedRule.coord)
    have top := isGreatest_foldl .upper Coord.y (fun _ _ => rfl) r.coord
      (rest.map PlacedRule.coord)
    rw [← List.map_cons] at left bottom right top
    simp only [List.mem_map, exists_exists_and_eq_and] at left bottom right top
    exact ⟨fun _ => ⟨left, bottom⟩, fun _ => ⟨right, top⟩, by simp⟩

theorem tight_ofPattern (p : Pattern) : (ofPattern p).Tight := tight_ofRules ..

theorem tight_turned (o : Orientation) : o.turned.Tight := tight_ofRules ..

theorem Tight.bounds_eq {o o' : Orientation} (h : o.Tight) (h' : o'.Tight)
    (rules : o'.rules = o.rules) : o'.low = o.low ∧ o'.high = o.high := by
  have columns : o'.columns = o.columns := by rw [Orientation.columns, rules]; rfl
  have rows : o'.rows = o.rows := by rw [Orientation.rows, rules]; rfl
  by_cases some : o.rules = []
  · obtain ⟨low, high⟩ := h.none some
    obtain ⟨low', high'⟩ := h'.none (rules.trans some)
    exact ⟨low'.trans low.symm, high'.trans high.symm⟩
  · have some' : o'.rules ≠ [] := rules ▸ some
    have low := h'.low some'
    have high := h'.high some'
    rw [columns, rows] at low high
    exact ⟨Coord.ext (low.1.unique (h.low some).1) (low.2.unique (h.low some).2),
      Coord.ext (high.1.unique (h.high some).1) (high.2.unique (h.high some).2)⟩

theorem forall₂_isTurn_turns {o q : Orientation} {k n : ℕ} (turnings : ℕ) (h : o.IsTurn k q)
    (tight : q.Tight) (within : q.Within n) (room : n + turnings ≤ 2 ^ 23 - 2) :
    List.Forall₂ (fun i q' => o.IsTurn i q' ∧ q'.Tight) (List.range' k (turnings + 1))
      (turns turnings q) := by
  induction turnings generalizing k n q with
  | zero => exact .cons ⟨h, tight⟩ .nil
  | succ j ih =>
    have near : q.Within (2 ^ 23 - 2) := within.mono (by omega)
    refine .cons ⟨h, tight⟩ ?_
    exact ih (h.turned near) (tight_turned q) (within_turned within (by omega)) (by omega)

/-- A turn is a quarter turn of every slot about the centre of the origin cell. It
keeps slots apart and bounds tight, and four of them restore the orientation. -/
theorem turned_rigid {o : Orientation} (near : o.Within (2 ^ 22)) :
    (o.IsTurn 1 o.turned ∧ o.turned.Tight ∧ (o.Distinct → o.turned.Distinct)) ∧
      (o.turned.turned.turned.turned.rules = o.rules ∧
        (o.Tight → o.turned.turned.turned.turned.low = o.low ∧
          o.turned.turned.turned.turned.high = o.high)) ∧
      ∀ p, ofPattern p = o →
        List.Forall₂ (fun n o' => o.IsTurn n o' ∧ o'.Tight) [0, 1, 2, 3] (ofPatternAll p true) := by
  have exact : o.Within (2 ^ 23 - 2) := near.mono (by decide)
  have once := o.isTurn_refl.turned exact
  have fourth : o.IsTurn 4 o.turned.turned.turned.turned := by
    have near₁ := within_turned near (by decide)
    have near₂ := within_turned near₁ (by decide)
    have near₃ := within_turned near₂ (by decide)
    exact ((once.turned (near₁.mono (by decide))).turned (near₂.mono (by decide))).turned
      (near₃.mono (by decide))
  refine ⟨⟨once, tight_turned o, fun distinct => distinct_turned distinct exact⟩,
    ⟨fourth.rules_eq, fun h => h.bounds_eq (tight_turned _) fourth.rules_eq⟩, fun p hp => ?_⟩
  subst hp
  exact forall₂_isTurn_turns 3 (isTurn_refl _) (tight_ofPattern p) near (by decide)

def fourParts : Pattern :=
  ⟨[.fresh ⟨0, 0⟩ .ground, .fresh ⟨2, 1⟩ .corner, .fresh ⟨0, 0⟩ .edgeX, .fresh ⟨-1, 3⟩ .edgeY]⟩

theorem turned_rigid_fourParts :
    (ofPattern fourParts).Within (2 ^ 22) ∧ (ofPattern fourParts).Distinct ∧
      (ofPattern fourParts).turned.rules.map PlacedRule.place =
        [⟨⟨0, 0⟩, .ground⟩, ⟨⟨0, 2⟩, .corner⟩, ⟨⟨1, 0⟩, .edgeY⟩, ⟨⟨-3, -1⟩, .edgeX⟩] ∧
      (ofPattern fourParts).turned.Distinct ∧
      (ofPattern fourParts).turned.turned.turned.turned.rules = (ofPattern fourParts).rules ∧
      List.Forall₂ (fun n o' => (ofPattern fourParts).IsTurn n o' ∧ o'.Tight) [0, 1, 2, 3]
        (ofPatternAll fourParts true) := by
  have near : (ofPattern fourParts).Within (2 ^ 22) := by
    unfold Orientation.Within PlacedRule.Within
    decide +kernel
  have distinct : (ofPattern fourParts).Distinct := distinct_ofPattern (by decide)
  obtain ⟨⟨-, -, kept⟩, ⟨restored, -⟩, all⟩ := turned_rigid near
  exact ⟨near, distinct, by decide +kernel, kept distinct, restored, all _ rfl⟩

end Orientation

end MarkerLattice
