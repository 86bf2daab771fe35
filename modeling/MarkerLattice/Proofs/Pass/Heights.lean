import Mathlib
import MarkerLattice.Pass
import MarkerLattice.Proofs.Lattice.Scene

/-! The check of heights goes over the markers under a placement once and looks at the
level seen first only. It compares every pair of tracked markers of one name that way. -/
namespace MarkerLattice.PassRules

/-- Any two entries of one name are on one level. -/
def Agree (es : List (String × Int)) : Prop :=
  ∀ e ∈ es, ∀ e' ∈ es, e.1 = e'.1 → e.2 = e'.2

theorem Agree.of_subset {es es' : List (String × Int)} (h : Agree es') (subset : es ⊆ es') :
    Agree es :=
  fun e he e' he' => h e (subset he) e' (subset he')

theorem agree_congr {es es' : List (String × Int)} (h : ∀ e, e ∈ es ↔ e ∈ es') :
    Agree es ↔ Agree es' :=
  ⟨fun agree => agree.of_subset fun e => (h e).mpr, fun agree => agree.of_subset fun e => (h e).mp⟩

theorem all_lookup_iff (seen : List (String × Int)) :
    (seen.all fun e => seen.lookup e.1 = some e.2) = true ↔ Agree seen := by
  simp only [List.all_eq_true, decide_eq_true_eq]
  constructor
  · intro first e he e' he' name
    have h := first e he
    rw [name, first e' he'] at h
    exact (Option.some.inj h).symm
  · intro agree e he
    have found : (seen.lookup e.1).isSome = true :=
      List.lookup_isSome_iff.mpr ⟨e, he, by simp⟩
    obtain ⟨level, hlevel⟩ := Option.isSome_iff_exists.mp found
    obtain ⟨before, behind, split, -⟩ := List.lookup_eq_some_iff.mp hlevel
    have entry : (e.1, level) ∈ seen := by simp [split]
    exact hlevel.trans (congrArg some (agree _ entry e he rfl))

variable (rules : PassRules) (b : Board) (p : Placement)

theorem heightsAgree_iff : rules.heightsAgree b p = true ↔ Agree (rules.trackedLevels b p) :=
  all_lookup_iff _

section Scan

def note (seen : List (String × Int)) (e : String × Int) : Option (List (String × Int)) :=
  match seen.lookup e.1 with
  | some level => if level = e.2 then some seen else none
  | none => some (e :: seen)

def look (seen : List (String × Int)) (m : Marker) : Option (List (String × Int)) :=
  if m.name ∈ rules.sameHeight then note seen (m.name, markerLevel rules.cellHeight m)
  else some seen

/-- Goes over the rules and the markers of their slots, up to the first marker that does not
stand on the level of its name. -/
def scan : Option (List (String × Int)) :=
  p.orientation.rules.foldlM
    (fun seen r => (b.scene.markers (p.slot r)).foldlM rules.look seen) []

theorem isSome_foldlM_note {seen : List (String × Int)} (agree : Agree seen)
    (es : List (String × Int)) :
    (es.foldlM note seen).isSome = true ↔ Agree (seen ++ es) := by
  induction es generalizing seen with
  | nil => simpa using agree
  | cons e rest ih =>
    rw [List.foldlM_cons]
    cases known : seen.lookup e.1 with
    | some level =>
      obtain ⟨before, behind, split, -⟩ := List.lookup_eq_some_iff.mp known
      have entry : (e.1, level) ∈ seen := by simp [split]
      by_cases same : level = e.2
      · have noted : note seen e = some seen := by simp [note, known, same]
        have old : e ∈ seen := by rwa [same] at entry
        rw [noted]
        apply (ih agree).trans
        apply agree_congr
        intro x
        simp only [List.mem_append, List.mem_cons]
        constructor
        · exact Or.imp_right .inr
        · rintro (first | rfl | later)
          · exact .inl first
          · exact .inl old
          · exact .inr later
      · have noted : note seen e = none := by simp [note, known, same]
        rw [noted]
        apply iff_of_false nofun
        intro all
        exact same (all _ (List.mem_append_left _ entry) e (by simp) rfl)
    | none =>
      have noted : note seen e = some (e :: seen) := by simp [note, known]
      have new : Agree (e :: seen) := by
        have other (x : String × Int) (hx : x ∈ seen) : e.1 ≠ x.1 := by
          simpa using List.lookup_eq_none_iff.mp known x hx
        intro x hx y hy name
        rcases List.mem_cons.mp hx with rfl | oldx <;> rcases List.mem_cons.mp hy with rfl | oldy
        · rfl
        · exact absurd name (other y oldy)
        · exact absurd name.symm (other x oldx)
        · exact agree x oldx y oldy name
      rw [noted]
      apply (ih new).trans
      apply agree_congr
      intro x
      simp only [List.cons_append, List.mem_append, List.mem_cons]
      exact or_left_comm

theorem scan_eq_foldlM : rules.scan b p = (rules.trackedLevels b p).foldlM note [] := by
  unfold scan trackedLevels
  generalize ([] : List (String × Int)) = seen
  induction p.orientation.rules generalizing seen with
  | nil => rfl
  | cons r rest ih =>
    have slot : (b.scene.markers (p.slot r)).foldlM rules.look seen =
        (((b.scene.markers (p.slot r)).filter fun m => m.name ∈ rules.sameHeight).map fun m =>
          (m.name, markerLevel rules.cellHeight m)).foldlM note seen := by
      rw [List.foldlM_map, List.foldlM_filter]
      simp only [decide_eq_true_eq]
      rfl
    rw [List.foldlM_cons, List.flatMap_cons, List.foldlM_append, slot]
    exact congrArg _ (funext ih)

theorem heightsAgree_eq_scan : rules.heightsAgree b p = (rules.scan b p).isSome := by
  rw [Bool.eq_iff_iff, heightsAgree_iff, scan_eq_foldlM, isSome_foldlM_note (by simp [Agree])]
  rfl

end Scan

section Pairs

def Sees (name : String) (level : Int) : Prop :=
  name ∈ rules.sameHeight ∧ ∃ r ∈ p.orientation.rules,
    b.scene.window.contains (p.base + r.coord) = true ∧
      ∃ m ∈ b.scene.markers ⟨p.base + r.coord, r.part⟩,
        m.name = name ∧ markerLevel rules.cellHeight m = level

theorem mem_trackedLevels {name : String} {level : Int} :
    (name, level) ∈ rules.trackedLevels b p ↔ rules.Sees b p name level := by
  simp only [trackedLevels, Sees, Placement.slot, List.mem_flatMap, List.mem_map, List.mem_filter,
    decide_eq_true_eq, Prod.mk.injEq]
  constructor
  · rintro ⟨r, hr, m, ⟨hm, tracked⟩, rfl, rfl⟩
    exact ⟨tracked, r, hr, Scene.contains_of_mem_markers hm, m, hm, rfl, rfl⟩
  · rintro ⟨tracked, r, hr, -, m, hm, rfl, rfl⟩
    exact ⟨r, hr, m, ⟨hm, tracked⟩, rfl, rfl⟩

variable {rules b p} {rules' : PassRules} {b' : Board} {p' : Placement}

/-- A placement sees no other tracked markers than another one, in whatever order and
number. -/
structure SeesWithin (rules : PassRules) (b : Board) (p : Placement) (rules' : PassRules)
    (b' : Board) (p' : Placement) : Prop where
  cellHeight : rules.cellHeight = rules'.cellHeight
  base : p.base = p'.base
  tracked : rules.sameHeight ⊆ rules'.sameHeight
  placed : p.orientation.rules ⊆ p'.orientation.rules
  markers : ∀ slot, b.scene.markers slot ⊆ b'.scene.markers slot

theorem Sees.of_seesWithin (h : rules.SeesWithin b p rules' b' p') {name : String} {level : Int}
    (sees : rules.Sees b p name level) : rules'.Sees b' p' name level := by
  obtain ⟨tracked, r, hr, -, m, hm, same, rfl⟩ := sees
  have hm' := h.markers _ hm
  rw [h.base] at hm'
  refine ⟨h.tracked tracked, r, h.placed hr, Scene.contains_of_mem_markers hm', m, hm', same, ?_⟩
  rw [h.cellHeight]

theorem heightsAgree_of_seesWithin (h : rules.SeesWithin b p rules' b' p')
    (agree : rules'.heightsAgree b' p' = true) : rules.heightsAgree b p = true := by
  rw [heightsAgree_iff] at agree ⊢
  apply agree.of_subset
  rintro ⟨name, level⟩ he
  rw [mem_trackedLevels] at he ⊢
  exact he.of_seesWithin h

theorem heightsAgree_eq_false_iff : rules.heightsAgree b p = false ↔
    ∃ name level level', level ≠ level' ∧ rules.Sees b p name level ∧
      rules.Sees b p name level' := by
  rw [← Bool.not_eq_true, heightsAgree_iff, Agree]
  push Not
  constructor
  · rintro ⟨⟨name, level⟩, he, ⟨name', level'⟩, he', same, apart⟩
    obtain rfl : name = name' := same
    exact ⟨name, level, level', apart, (mem_trackedLevels ..).mp he, (mem_trackedLevels ..).mp he'⟩
  · rintro ⟨name, level, level', apart, sees, sees'⟩
    exact ⟨_, (mem_trackedLevels ..).mpr sees, _, (mem_trackedLevels ..).mpr sees', rfl, apart⟩

end Pairs

/-- A pass over the rules and their markers is a comparison of all pairs. It fails on two
tracked markers of one name on different levels, each in the window and under some rule.
Hence nothing depends on the order of the rules, the markers or the names, nor on how often
they are there, and rules that are dropped can only make it succeed. -/
theorem heightsAgree_pairwise (rules : PassRules) (b : Board) (p : Placement) :
    rules.heightsAgree b p = (rules.scan b p).isSome ∧
    (rules.heightsAgree b p = false ↔
      ∃ name level level', level ≠ level' ∧ rules.Sees b p name level ∧
        rules.Sees b p name level') ∧
    (∀ (rules' : PassRules) (b' : Board) (p' : Placement), rules.SeesWithin b p rules' b' p' →
      rules'.SeesWithin b' p' rules b p → rules'.heightsAgree b' p' = rules.heightsAgree b p) ∧
    ∀ o : Orientation, o.rules ⊆ p.orientation.rules → rules.heightsAgree b p = true →
      rules.heightsAgree b ⟨p.base, o⟩ = true := by
  refine ⟨rules.heightsAgree_eq_scan b p, heightsAgree_eq_false_iff, ?_, ?_⟩
  · intro rules' b' p' within within'
    rw [Bool.eq_iff_iff]
    exact ⟨heightsAgree_of_seesWithin within, heightsAgree_of_seesWithin within'⟩
  · intro o subset
    apply heightsAgree_of_seesWithin
    exact ⟨rfl, rfl, List.Subset.refl _, subset, fun slot => List.Subset.refl _⟩

def splitFloor : Board :=
  let scene := Scene.ofMarkers ⟨.one, .one, .one⟩
    [⟨0, "Floor", .ofPosition ⟨.half, .half, .zero⟩⟩,
      ⟨1, "Floor", .ofPosition ⟨⟨0x3fc00000⟩, .half, .two⟩⟩] 0
  ⟨scene, .none scene.window⟩

def levelFloors : PassRules where
  levels := Cells.fill splitFloor.scene.window (.replicate 0)
  cellHeight := .one
  sameHeight := ["Floor"]
  overlaps := true

def bystander (c : Coord) : PlacedRule := ⟨c, .ground, false, .withEntries⟩

def overFloors (rules : List PlacedRule) : Placement := ⟨.zero, .ofRules rules .zero 0⟩

theorem heightsAgree_pairwise_splitFloor :
    levelFloors.heightsAgree splitFloor (overFloors [bystander ⟨0, 0⟩, bystander ⟨1, 0⟩]) = false ∧
    levelFloors.heightsAgree splitFloor
      (overFloors [bystander ⟨1, 0⟩, bystander ⟨0, 0⟩, bystander ⟨1, 0⟩]) = false ∧
    levelFloors.heightsAgree splitFloor (overFloors [bystander ⟨1, 0⟩, bystander ⟨1, 0⟩]) = true ∧
    levelFloors.heightsAgree splitFloor (overFloors [bystander ⟨1, 0⟩]) = true := by
  have low : levelFloors.Sees splitFloor (overFloors [bystander ⟨0, 0⟩, bystander ⟨1, 0⟩])
      "Floor" 0 :=
    ⟨by decide, bystander ⟨0, 0⟩, by decide +kernel, by decide +kernel,
      ⟨0, "Floor", .ofPosition ⟨.half, .half, .zero⟩⟩, by decide +kernel, rfl, by decide +kernel⟩
  have high : levelFloors.Sees splitFloor (overFloors [bystander ⟨0, 0⟩, bystander ⟨1, 0⟩])
      "Floor" 2 :=
    ⟨by decide, bystander ⟨1, 0⟩, by decide +kernel, by decide +kernel,
      ⟨1, "Floor", .ofPosition ⟨⟨0x3fc00000⟩, .half, .two⟩⟩, by decide +kernel, rfl,
      by decide +kernel⟩
  obtain ⟨-, pairs, same, -⟩ := heightsAgree_pairwise levelFloors splitFloor
    (overFloors [bystander ⟨0, 0⟩, bystander ⟨1, 0⟩])
  have refused := pairs.mpr ⟨"Floor", 0, 2, by decide, low, high⟩
  refine ⟨refused, (same _ _ _ ?_ ?_).trans refused, by decide +kernel, ?_⟩
  · exact ⟨rfl, rfl, List.Subset.refl _, by decide +kernel, fun _ => List.Subset.refl _⟩
  · exact ⟨rfl, rfl, List.Subset.refl _, by decide +kernel, fun _ => List.Subset.refl _⟩
  · exact (heightsAgree_pairwise levelFloors splitFloor
      (overFloors [bystander ⟨1, 0⟩, bystander ⟨1, 0⟩])).2.2.2 _ (by decide +kernel)
      (by decide +kernel)

end MarkerLattice.PassRules
