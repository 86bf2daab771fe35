import MarkerLattice.Proofs.Directory
import MarkerLattice.Proofs.ModelFile
import MarkerLattice.Proofs.Stored.Text

/-! Models and marker lists pass through files. A model comes back from any chain of files
in both formats. A marker list comes back from its file as long as every number in it has
a JSON form. -/
namespace MarkerLattice

open Directory (fileName? find_insert write_eq)

namespace ModelFile

/-- The name of a file decides its format, however a path leads to it. -/
theorem Format.ofPath_eq {path name : String} (h : fileName? path = some name) :
    ofPath path = ofPath name := by
  obtain ⟨front, ends, slash⟩ := Directory.toList_of_fileName? h
  have suffix : ".json".toList <:+ path.toList.map Char.toLower ↔
      ".json".toList <:+ name.toList.map Char.toLower := by
    rw [ends, List.map_append]
    refine ⟨fun whole => ?_, fun part => part.trans (List.suffix_append _ _)⟩
    rcases List.suffix_or_suffix_of_suffix whole (List.suffix_append _ _) with part | ⟨t, split⟩
    · exact part
    obtain ⟨u, whole⟩ := whole
    rw [← split, ← List.append_assoc, List.append_cancel_right_eq] at whole
    -- A name that is too short leaves the slash in front of it to the suffix.
    rcases List.eq_nil_or_concat t with rfl | ⟨t, c, rfl⟩
    · exact ⟨[], split.symm⟩
    · have last : c ∈ ".json".toList := split ▸ by simp
      have last' := congrArg List.getLast? whole
      rcases slash with rfl | slash
      · simp at whole
      · obtain rfl : c = '/' := by simpa [slash] using last'
        exact absurd last (by decide)
  simp only [ofPath, List.isSuffixOf_iff_suffix, suffix]

inductive Transfer where
  | save (path : String)
  | load (path : String)

def Transfer.path : Transfer → String
  | save path | load path => path

def Transfer.run (d : Directory) (m : Model) : Transfer → Except StorageError (Directory × Model)
  | save path => do return (← (d.write path (contents path m)).mapError .file, m)
  | load path => do return (d, ← ModelFile.load d.find path)

def runAll (d : Directory) (m : Model) : List Transfer → Except StorageError (Directory × Model)
  | [] => .ok (d, m)
  | t :: later => do
    let (d, m) ← t.run d m
    runAll d m later

/-- All paths lead to files, and what is loaded has one of the names or was saved before. -/
def isChain (names : List String) : List Transfer → Bool
  | [] => true
  | t :: later =>
    match fileName? t.path, t with
    | none, _ => false
    | some name, .save _ => isChain (name :: names) later
    | some name, .load _ => name ∈ names && isChain names later

/-- The model is loaded from the files of these names, along any path. -/
def Holds (d : Directory) (m : Model) (names : List String) : Prop :=
  ∀ path, ∀ name ∈ names, fileName? path = some name → load d.find path = .ok m

section Chains

variable {m : Model} {d : Directory} {path name : String} {names : List String}

theorem Format.read_write_json (finite : ∀ l ∈ m.layers, l.probability.isFinite = true) :
    json.read (.ok (.file (json.write m))) = .ok m := by
  simp only [read, write, readJson, m.readsIf.ofText finite, Except.mapError]

theorem Format.read_write (finite : ∀ l ∈ m.layers, l.probability.isFinite = true)
    (fits : (Stored.pack m).length ≤ bufferLimit) (format : Format) :
    format.read (.ok (.file (format.write m))) = .ok m := by
  cases format with
  | json => exact read_write_json finite
  | packed =>
    have whole := unpack_pack_append fits []
    rw [List.append_nil] at whole
    simp only [read, write, packedContents, bind, Except.bind]
    exact whole

theorem Holds.nil (d : Directory) (m : Model) : Holds d m [] := by simp [Holds]

theorem Holds.save (h : Holds d m names) (finite : ∀ l ∈ m.layers, l.probability.isFinite = true)
    (fits : (Stored.pack m).length ≤ bufferLimit) (leads : fileName? path = some name) :
    ∃ d', Transfer.run d m (.save path) = .ok (d', m) ∧ Holds d' m (name :: names) := by
  refine ⟨⟨d.files.insert name (contents path m)⟩, ?_, fun path' name' listed leads' => ?_⟩
  · simp only [Transfer.run, write_eq leads]
    rfl
  -- Another path to the saved file asks for the format that it was saved in.
  · by_cases same : name' = name
    · subst same
      have form : Format.ofPath path = Format.ofPath path' := by
        rw [Format.ofPath_eq leads, Format.ofPath_eq leads']
      rw [load, find_insert leads', if_pos rfl, contents, form, Format.read_write finite fits]
    · rw [load, find_insert leads', if_neg same]
      exact h path' name' (by simpa [same] using listed) leads'

theorem Holds.after (h : Holds d m names) (finite : ∀ l ∈ m.layers, l.probability.isFinite = true)
    (fits : (Stored.pack m).length ≤ bufferLimit) {transfers : List Transfer}
    (chain : isChain names transfers = true) : ∃ d', runAll d m transfers = .ok (d', m) := by
  -- The model at hand never changes; the directory and the names that are known do.
  induction transfers generalizing d names with
  | nil => exact ⟨d, rfl⟩
  | cons t later ih =>
    cases leads : fileName? t.path with
    | none => simp [isChain, leads] at chain
    | some name =>
      cases t with
      | save path =>
        obtain ⟨d', saved, h'⟩ := h.save finite fits (show fileName? path = some name from leads)
        obtain ⟨last, done⟩ := ih h' (by simpa [isChain, leads] using chain)
        refine ⟨last, ?_⟩
        rw [runAll, saved]
        exact done
      | load path =>
        obtain ⟨listed, chain⟩ : name ∈ names ∧ isChain names later = true := by
          simpa [isChain, leads] using chain
        obtain ⟨last, done⟩ := ih h chain
        refine ⟨last, ?_⟩
        rw [runAll, Transfer.run, h path name listed leads]
        exact done

/-- A model with finite probabilities is read back from its JSON text, and if it fits a
buffer it is what any chain of saving and loading ends with. -/
theorem runAll_chain (finite : ∀ l ∈ m.layers, l.probability.isFinite = true) :
    Format.json.read (.ok (.file (Format.json.write m))) = .ok m ∧
      ((Stored.pack m).length ≤ bufferLimit → ∀ d names transfers, Holds d m names →
        isChain names transfers = true → ∃ d', runAll d m transfers = .ok (d', m)) :=
  ⟨Format.read_write_json finite, fun fits _ _ _ holds chain => holds.after finite fits chain⟩

def oneInTen : Model where
  layers := [{ Layer.standard with
    name := "Öl"
    probability := ⟨0x3dcccccd⟩
    pattern := some ⟨[{
      offset := ⟨-1, 2⟩
      part := .edgeX
      script := (Script.withEntries.createNode (.emitMarker ⟨"Wall", ["Ground"], []⟩)).2.setLink 1
        Pin.defaultOutput .output (some ⟨2, Pin.defaultInput⟩)
      inserts := true }]⟩ }, { Layer.standard with domain := .generic }]

theorem runAll_chain_oneInTen :
    let transfers : List Transfer := [.save "a.mkg", .load "a.mkg", .save "b.Json", .load "./b.Json",
      .save "a.mkg", .load "b.Json", .load "a.mkg"]
    Format.json.read (.ok (.file (Format.json.write oneInTen))) = .ok oneInTen ∧
      (Stored.pack oneInTen).length ≤ bufferLimit ∧ isChain [] transfers = true ∧
      ∃ d', runAll .empty oneInTen transfers = .ok (d', oneInTen) := by
  intro transfers
  have fits : (Stored.pack oneInTen).length ≤ bufferLimit := by decide +kernel
  have chain : isChain [] transfers = true := by decide +kernel
  obtain ⟨text, run⟩ := @runAll_chain oneInTen (by decide)
  exact ⟨text, fits, chain, run fits .empty [] transfers (Holds.nil _ _) chain⟩

end Chains

end ModelFile

namespace MarkerFile

variable {d d' : Directory} {path : String} {markers : List Marker}

/-- A marker list is loaded from the file that it was written to if all its numbers are
finite. The file is refused otherwise, although it could be written. -/
theorem load_of_write (written : d.write path (contents markers) = .ok d') :
    ((∀ m ∈ markers, m.pose.IsFinite) → load d'.find path = .ok markers) ∧
      (¬(∀ m ∈ markers, m.pose.IsFinite) → load d'.find path = .error (.json .malformed)) := by
  have reads := Stored.readsIf_list (l := markers) fun m _ => m.readsIf
  rw [load, Directory.find_of_write written, contents]
  refine ⟨fun finite => ?_, fun infinite => ?_⟩
  · simp only [ModelFile.readJson, reads.ofText finite, Except.mapError]
  · simp only [ModelFile.readJson, reads.ofText_refused infinite, Except.mapError]

def unboundedWall : List Marker := [⟨0, "Ground", .ofPosition ⟨.one, .half, .zero⟩⟩,
  ⟨1, "Wall", .ofPosition ⟨.infinity false, .zero, .zero⟩⟩]

theorem load_of_write_unboundedWall :
    ∃ d d', Directory.write .empty "a.json" (contents (unboundedWall.take 1)) = .ok d ∧
      load d.find "a.json" = .ok (unboundedWall.take 1) ∧
      d.write "a.json" (contents unboundedWall) = .ok d' ∧
      load d'.find "a.json" = .error (.json .malformed) := by
  have leads : fileName? "a.json" = some "a.json" := by decide +kernel
  obtain ⟨d, first⟩ : ∃ d, Directory.write .empty "a.json" (contents (unboundedWall.take 1)) = .ok d :=
    ⟨_, write_eq leads .empty _⟩
  have second := write_eq leads d (contents unboundedWall)
  exact ⟨_, _, first, (load_of_write first).1 (by decide), second, (load_of_write second).2 (by decide)⟩

end MarkerFile

end MarkerLattice
