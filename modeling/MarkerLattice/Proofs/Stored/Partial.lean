import MarkerLattice.Proofs.Stored.Text

/-! Objects that leave fields out. The members may come in any order, among members of
other names; what is left out keeps the value that the record starts with. -/
namespace MarkerLattice

namespace Record

variable {α : Type} {r : Record α} {tree : Field α → JsonTree}

/-- Members that tell some fields of a record by name, each once and by its tree. Members of
other names may stand between them. -/
inductive Tells (r : Record α) (tree : Field α → JsonTree) :
    List String → List (Bytes × JsonTree) → Prop
  | nil : Tells r tree [] []
  | field {f : Field α} {raw : Bytes} {told : List String} {members : List (Bytes × JsonTree)}
      (mem : f ∈ r.fields) (name : Stored.textOf raw = .ok f.name) (new : f.name ∉ told)
      (later : Tells r tree told members) : Tells r tree (f.name :: told) ((raw, tree f) :: members)
  | other {name : String} {raw : Bytes} {t : JsonTree} {told : List String}
      {members : List (Bytes × JsonTree)} (spelled : Stored.textOf raw = .ok name)
      (unknown : ∀ f ∈ r.fields, f.name ≠ name) (later : Tells r tree told members) :
      Tells r tree told ((raw, t) :: members)

/-- Reading the trees of some fields into a record is `fill` of their names. -/
structure Fills (r : Record α) (tree : Field α → JsonTree) (fill : List String → α → α) :
    Prop where
  nil (b : α) : fill [] b = b
  field : ∀ f ∈ r.fields, ∃ copy : α → α, (∀ b, f.readTree (tree f) b = .ok (copy b)) ∧
    ∀ told b, fill told (copy b) = fill (f.name :: told) b

variable {fill : List String → α → α} {told : List String} {members : List (Bytes × JsonTree)}

theorem readMembers_of_tells (names : (r.fields.map Field.name).Nodup) (fills : r.Fills tree fill)
    (h : r.Tells tree told members) {seen : List String} (unseen : ∀ n ∈ told, n ∉ seen) (b : α) :
    ∃ all, r.readMembers members seen b = .ok (all, fill told b) := by
  -- A member that is read moves its name from `told` to `seen`, and its value into `b`.
  induction h generalizing seen b with
  | nil => exact ⟨seen, by rw [fills.nil]; rfl⟩
  | @field f raw told members mem name new _ ih =>
    obtain ⟨first, later⟩ := List.forall_mem_cons.mp unseen
    obtain ⟨copy, reads, next⟩ := fills.field f mem
    have apart : ∀ n ∈ told, n ∉ f.name :: seen := by
      intro n listed
      have other : n ≠ f.name := fun same => new (same ▸ listed)
      simp [other, later n listed]
    obtain ⟨all, rest⟩ := ih apart (copy b)
    refine ⟨all, ?_⟩
    simp only [readMembers, name, find?_key names mem, if_neg first, reads, bind, Except.bind]
    rw [rest, next]
  | @other name raw t told members spelled unknown _ ih =>
    have missing : r.fields.find? (fun f => f.name = name) = none :=
      List.find?_eq_none.mpr fun f mem => by simpa using unknown f mem
    obtain ⟨all, rest⟩ := ih unseen b
    refine ⟨all, ?_⟩
    simp only [readMembers, spelled, missing, bind, Except.bind]
    exact rest

theorem ofTree_of_tells (names : (r.fields.map Field.name).Nodup) (fills : r.Fills tree fill)
    (optional : ∀ f ∈ r.fields, f.isRequired = false) (h : r.Tells tree told members) :
    r.ofTree (.object members true) = .ok (fill told r.start) := by
  obtain ⟨all, read⟩ := readMembers_of_tells names fills h (fun n _ => List.not_mem_nil) r.start
  have whole : r.fields.find? (fun f => f.isRequired && f.name ∉ all) = none :=
    List.find?_eq_none.mpr fun f mem => by simp [optional f mem]
  simp only [ofTree, read, whole, bind, Except.bind]
  rfl

end Record

namespace GridSettings

def overlay (g : GridSettings) (told : List String) (b : GridSettings) : GridSettings where
  sameHeight := if "same_height_markers" ∈ told then g.sameHeight else b.sameHeight
  expand := if "expand_marker_domain" ∈ told then g.expand else b.expand
  amount := if "expand_marker_domain_amount" ∈ told then g.amount else b.amount
  edgeMode := if "edge_height_mode" ∈ told then g.edgeMode else b.edgeMode

theorem fills_overlay (g : GridSettings) : record.Fills (fun f => f.toTree g) g.overlay where
  nil b := by simp [overlay]
  field := by
    simp only [record, List.forall_mem_cons]
    refine ⟨⟨_, Field.CopiesIf.lawful.reads trivial, fun told b => ?_⟩,
      ⟨_, Field.CopiesIf.lawful.reads trivial, fun told b => ?_⟩,
      ⟨_, Field.CopiesIf.lawful.reads trivial, fun told b => ?_⟩,
      ⟨_, Field.CopiesIf.lawful.reads trivial, fun told b => ?_⟩, by simp⟩
    all_goals simp [overlay, Field.optional, Field.make]

end GridSettings

namespace LayerDomain

def overlay (told : List String) : LayerDomain → LayerDomain
  | grid g => grid (g.overlay told .standard)
  | generic => generic

inductive Tells (told : List String) : LayerDomain → JsonTree → Prop
  | grid {g : GridSettings} {raw : Bytes} {members : List (Bytes × JsonTree)}
      (name : Stored.textOf raw = .ok "Grid")
      (settings : GridSettings.record.Tells (fun f => f.toTree g) told members) :
      Tells told (grid g) (.object [(raw, .object members true)] true)
  | generic {raw : Bytes} (name : Stored.textOf raw = .ok "Generic") :
      Tells told generic (.string raw)

theorem ofTree_of_tells {told : List String} {d : LayerDomain} {t : JsonTree}
    (h : Tells told d t) : Stored.ofTree t = .ok (d.overlay told) := by
  cases h with
  | @grid g raw members name settings =>
    have read : Stored.ofTree (.object members true) = .ok (g.overlay told .standard) :=
      Record.ofTree_of_tells (by decide) g.fills_overlay (by decide) settings
    have contents : variants.list[0].ofTree (.object members true) =
        .ok (grid (g.overlay told .standard)) := congrArg (Except.map grid) read
    have known := Variants.named_of_textOf (v := variants) (x := variants.list[0]) (by decide)
      (List.getElem_mem _) name
    simp only [Stored.ofTree, Variants.ofTree, known, contents, bind, Except.bind]
    rfl
  | @generic raw name =>
    have known := Variants.named_of_textOf (v := variants) (x := variants.list[1]) (by decide)
      (List.getElem_mem _) name
    simp only [Stored.ofTree, Variants.ofTree, known, bind, Except.bind]
    rfl

end LayerDomain

namespace Layer

def overlay (l : Layer) (told : List String) (b : Layer) : Layer where
  name := if "name" ∈ told then l.name else b.name
  probability := if "probability" ∈ told then l.probability else b.probability
  rotate := if "rotate_to_fit" ∈ told then l.rotate else b.rotate
  shuffle := if "randomize_fitting_order" ∈ told then l.shuffle else b.shuffle
  overlaps := if "allow_insertion_overlaps" ∈ told then l.overlaps else b.overlaps
  pattern := if "pattern" ∈ told then l.pattern else b.pattern
  domain := if "domain" ∈ told then l.domain else b.domain

def treeWith (l : Layer) (domain : JsonTree) (f : Field Layer) : JsonTree :=
  if f.name = "domain" then domain else f.toTree l

variable {l : Layer} {settings told : List String} {domain : JsonTree}
  {members : List (Bytes × JsonTree)}

theorem fills_overlay (finite : l.probability.isFinite = true)
    (tells : l.domain.Tells settings domain) :
    record.Fills (l.treeWith domain) { l with domain := l.domain.overlay settings }.overlay where
  nil b := by simp [overlay]
  field := by
    simp only [record, List.forall_mem_cons]
    refine ⟨⟨_, Field.CopiesIf.lawful.reads trivial, fun told b => ?_⟩,
      ⟨_, (Field.CopiesIf.make (Binary32.readsIf _)).reads finite, fun told b => ?_⟩,
      ⟨_, Field.CopiesIf.lawful.reads trivial, fun told b => ?_⟩,
      ⟨_, Field.CopiesIf.lawful.reads trivial, fun told b => ?_⟩,
      ⟨_, Field.CopiesIf.lawful.reads trivial, fun told b => ?_⟩,
      ⟨_, Field.CopiesIf.lawful.reads trivial, fun told b => ?_⟩,
      ⟨fun b => { b with domain := l.domain.overlay settings }, fun b => ?_, fun told b => ?_⟩,
      by simp⟩
    all_goals simp [overlay, Field.optional, Field.make, treeWith,
      LayerDomain.ofTree_of_tells tells, Except.map]

/-- Members that tell some fields of a layer, and in its domain some of its settings. -/
def Tells (l : Layer) (settings told : List String) (members : List (Bytes × JsonTree)) : Prop :=
  ∃ domain, l.domain.Tells settings domain ∧ record.Tells (l.treeWith domain) told members

/-- A text with an object that tells some fields of a layer, in any order and among others of
unknown names, is read as the layer with the standard values of what it leaves out. -/
theorem ofText_of_tells (finite : l.probability.isFinite = true)
    (h : l.Tells settings told members) {b : Bytes}
    (text : JsonTree.ofBytes b = (.object members true, false)) :
    Stored.ofText b =
      .ok ({ l with domain := l.domain.overlay settings }.overlay told .standard) := by
  obtain ⟨domain, settingsTold, fieldsTold⟩ := h
  have read : Stored.ofTree (.object members true) =
      .ok ({ l with domain := l.domain.overlay settings }.overlay told .standard) :=
    Record.ofTree_of_tells (by decide) (fills_overlay finite settingsTold) (by decide) fieldsTold
  simp only [Stored.ofText, text, read]
  rfl

def wideWalls : GridSettings :=
  { sameHeight := ["Wall"], expand := true, amount := 3, edgeMode := .corrected }

def quarterDoors : Layer where
  name := "Doors"
  probability := ⟨0x3e800000⟩
  rotate := false
  shuffle := false
  overlaps := true
  pattern := none
  domain := .grid wideWalls

section Doors

open JsonText (escape)

def amountTree : JsonTree :=
  .object [(escape "Grid",
    .object [(escape "expand_marker_domain_amount", Stored.toTree (3 : Int32))] true)] true

def doorMembers : List (Bytes × JsonTree) := [
  (escape "probability", Stored.toTree quarterDoors.probability), (escape "note", .null),
  (escape "domain", amountTree), (escape "name", .ofString "Doors")]

theorem ofText_of_tells_quarterDoors :
    Stored.ofText (JsonTree.object doorMembers true).toBytes =
      .ok { Layer.standard with
        name := "Doors"
        probability := ⟨0x3e800000⟩
        domain := .grid { GridSettings.standard with amount := 3 } } := by
  have names (n : String) : JsonText.Sound (escape n) := JsonText.sound_escape n
  have settings : LayerDomain.Tells ["expand_marker_domain_amount"] quarterDoors.domain amountTree :=
    .grid (Stored.textOf_escape "Grid") <|
      .field (f := GridSettings.record.fields[2]) (List.getElem_mem _) (Stored.textOf_escape _)
        (by simp) .nil
  have fields : record.Tells (quarterDoors.treeWith amountTree) ["probability", "domain", "name"]
      doorMembers :=
    .field (f := record.fields[1]) (List.getElem_mem _) (Stored.textOf_escape _) (by decide) <|
    .other (Stored.textOf_escape "note") (by decide) <|
    .field (f := record.fields[6]) (List.getElem_mem _) (Stored.textOf_escape _) (by decide) <|
    .field (f := record.fields[0]) (List.getElem_mem _) (Stored.textOf_escape _) (by decide) .nil
  have domain : amountTree.Sound :=
    .object (by simp [names]) <| by
      simpa using .object (by simp [names]) (by simpa using (LawfulTree.readsIf (3 : Int32)).sound)
  have whole : (JsonTree.object doorMembers true).Sound := by
    refine .object (by simp [doorMembers, names]) ?_
    simp only [doorMembers, List.forall_mem_cons]
    exact ⟨(Binary32.readsIf _).sound, .null, domain, .string (names _), by simp⟩
  exact ofText_of_tells (by decide) ⟨_, settings, fields⟩ (JsonTree.ofBytes_toBytes whole)

end Doors

end Layer

end MarkerLattice
