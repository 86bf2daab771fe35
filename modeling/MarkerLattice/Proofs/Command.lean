import MarkerLattice.Command
import MarkerLattice.Proofs.Exchange
import MarkerLattice.Proofs.Pass.Stack

/-! Runs of commands over a store of files. Whatever ends a command with an error comes
before the only write, so the store is left as it was; a result goes into the one file that
was asked for. -/
namespace MarkerLattice

namespace Options

open FileStore (find write)

section Words

variable {words : List String} {o : Options}

theorem Given.markers?_of_options {g : Given} (h : g.options = .ok o) (runs : o.describe = false) :
    ∃ path, o.markers? = some path := by
  rw [options] at h
  split at h
  · cases h
  · split at h
    · cases h
    next complete =>
      cases h
      cases given : g.markers? <;> simp_all

theorem markers?_of_ofWords (parsed : ofWords words = .ok o) (runs : o.describe = false) :
    ∃ path, o.markers? = some path := by
  rw [ofWords] at parsed
  cases read : Given.read none .nothing words with
  | error halt => rw [read] at parsed; cases parsed
  | ok g => rw [read] at parsed; exact Given.markers?_of_options parsed runs

end Words

variable {σ : Type} [FileStore σ]

structure Loads (o : Options) (d : σ) (model : Model) (markers : List Marker) : Prop where
  runs : o.describe = false
  model : ModelFile.load (find d) o.model = .ok model
  markers : ∃ path, o.markers? = some path ∧ MarkerFile.load (find d) path = .ok markers

def SeedFits (o : Options) : Prop :=
  if o.engine then -2 ^ 31 ≤ o.seed ∧ o.seed < 2 ^ 31 else 0 ≤ o.seed

structure Ready (o : Options) (d : σ) (model : Model) (markers : List Marker)
    (cellSize : Vec3 Binary32) : Prop extends o.Loads d model markers where
  size : o.cellSize = [cellSize.x, cellSize.y, cellSize.z]
  seed : o.SeedFits

/-- The markers that a model makes of others in a dungeon at the origin, with the stream that
starts with the seed. -/
def outcome (o : Options) (model : Model) (markers : List Marker) (cellSize : Vec3 Binary32) :
    List Marker :=
  let dungeon : Processor := ⟨.identity, cellSize⟩
  if o.engine then (dungeon.apply model markers (Congruential.ofSeed (UInt32.ofInt o.seed))).1
  else (dungeon.apply model markers (ChaCha.ofSeed (UInt64.ofInt o.seed))).1

/-- What a command ends with an error for, in the order in which it is noticed. -/
inductive Fails (o : Options) (d : σ) : CommandError → Prop
  | model {cause : StorageError} (refused : ModelFile.load (find d) o.model = .error cause) :
      Fails o d (.loadingModel o.model cause)
  | markers {model : Model} {path : String} {cause : StorageError} (runs : o.describe = false)
      (loaded : ModelFile.load (find d) o.model = .ok model) (given : o.markers? = some path)
      (refused : MarkerFile.load (find d) path = .error cause) :
      Fails o d (.loadingMarkers path cause)
  | cellSize {model : Model} {markers : List Marker} (loads : o.Loads d model markers)
      (count : o.cellSize.length ≠ 3) : Fails o d (.cellSizeCount o.cellSize.length)
  | seed {model : Model} {markers : List Marker} (loads : o.Loads d model markers)
      (count : o.cellSize.length = 3) (outside : ¬o.SeedFits) :
      Fails o d (if o.engine then .engineSeed o.seed else .standardSeed o.seed)
  | output {model : Model} {markers : List Marker} {cellSize : Vec3 Binary32} {path : String}
      {fault : FileFault} (ready : o.Ready d model markers cellSize) (asked : o.out? = some path)
      (refused : write d path (MarkerFile.contents (o.outcome model markers cellSize)) =
        .error fault) :
      Fails o d (.writingMarkers path fault)

variable {o : Options} {d : σ} {model : Model} {markers : List Marker} {cellSize : Vec3 Binary32}

theorem Ready.unique {model' : Model} {markers' : List Marker} {cellSize' : Vec3 Binary32}
    (h : o.Ready d model markers cellSize) (h' : o.Ready d model' markers' cellSize') :
    model = model' ∧ markers = markers' ∧ cellSize = cellSize' := by
  obtain ⟨path, given, read⟩ := h.markers
  obtain ⟨path', given', read'⟩ := h'.markers
  obtain rfl : path = path' := Option.some.inj (given.symm.trans given')
  have sizes := h.size.symm.trans h'.size
  refine ⟨Except.ok.inj (h.model.symm.trans h'.model), Except.ok.inj (read.symm.trans read'), ?_⟩
  cases cellSize
  cases cellSize'
  simp_all

section Reports

theorem gridCellSize_eq (size : o.cellSize = [cellSize.x, cellSize.y, cellSize.z]) :
    o.gridCellSize = .ok cellSize := by
  rw [gridCellSize, size]

theorem gridCellSize_eq_error (count : o.cellSize.length ≠ 3) :
    o.gridCellSize = .error (.cellSizeCount o.cellSize.length) := by
  rw [gridCellSize]
  split
  next same => simp [same] at count
  next => rfl

theorem within_int32_iff (n : ℤ) :
    (Int32.minValue.toInt ≤ n && n ≤ Int32.maxValue.toInt) = true ↔ -2 ^ 31 ≤ n ∧ n < 2 ^ 31 := by
  have least : Int32.minValue.toInt = -2 ^ 31 := by decide
  have greatest : Int32.maxValue.toInt = 2 ^ 31 - 1 := by decide
  rw [least, greatest, Bool.and_eq_true, decide_eq_true_iff, decide_eq_true_iff]
  omega

theorem random_eq (fits : o.SeedFits) : o.random = .ok
    (if o.engine then .engine (UInt32.ofInt o.seed) else .standard (UInt64.ofInt o.seed)) := by
  unfold SeedFits at fits
  unfold random
  split_ifs at fits ⊢ with engine inside
  · rfl
  · exact absurd ((within_int32_iff _).mpr fits) inside
  · rfl

theorem random_eq_error (outside : ¬o.SeedFits) :
    o.random = .error (if o.engine then .engineSeed o.seed else .standardSeed o.seed) := by
  unfold SeedFits at outside
  unfold random
  split_ifs at outside ⊢ with engine inside
  · exact absurd ((within_int32_iff _).mp inside) outside
  · rfl
  · rfl

theorem runModel_eq (h : o.Ready d model markers cellSize) :
    o.runModel (find d) model = .ok (o.outcome model markers cellSize) := by
  obtain ⟨path, given, read⟩ := h.markers
  simp only [runModel, given, read, gridCellSize_eq h.size, random_eq h.seed, Except.mapError, bind,
    Except.bind]
  rw [outcome]
  cases o.engine <;> rfl

theorem report_eq (h : o.Ready d model markers cellSize) : o.report (find d) =
    .ok (match o.out? with
      | some path => ⟨[], some (path, MarkerFile.contents (o.outcome model markers cellSize))⟩
      | none => ⟨MarkerFile.contents (o.outcome model markers cellSize) ++ [10], none⟩) := by
  simp only [report, h.model, h.runs, runModel_eq h, Except.mapError, bind, Except.bind]
  rfl

end Reports

theorem run_eq (o : Options) (d : σ) : o.run d =
    (liftExcept (o.report (find d)) >>= CommandReport.deliver : Session σ Bytes).run.run d :=
  rfl

theorem run_of_report_error {e : CommandError} (h : o.report (find d) = .error e) :
    o.run d = (.error e, d) := by
  rw [run_eq, h]
  rfl

theorem run_of_report {output : Bytes} (h : o.report (find d) = .ok ⟨output, none⟩) :
    o.run d = (.ok output, d) := by
  rw [run_eq, h]
  rfl

theorem run_write (path : String) (contents : Bytes) (d : σ) :
    (Session.write path contents : Session σ Unit).run.run d =
      match write d path contents with
      | .ok d' => (.ok (), d')
      | .error fault => (.error (.writingMarkers path fault), d) := by
  -- The store is read inside the session, so the two cases show only once it runs on `d`.
  have found : (Session.write path contents : Session σ Unit).run.run d =
      (match write d path contents with
        | .ok d' => set d'
        | .error fault => throw (.writingMarkers path fault) : Session σ Unit).run.run d := rfl
  rw [found]
  cases write d path contents <;> rfl

theorem run_of_report_file {output contents : Bytes} {path : String}
    (h : o.report (find d) = .ok ⟨output, some (path, contents)⟩) : o.run d =
      match write d path contents with
      | .ok d' => (.ok output, d')
      | .error fault => (.error (.writingMarkers path fault), d) := by
  have delivered : o.run d = (Session.write path contents >>= fun _ => pure output :
      Session σ Bytes).run.run d := by
    rw [run_eq, h]
    rfl
  rw [delivered, ExceptT.run_bind, StateT.run_bind, run_write]
  cases write d path contents <;> rfl

theorem run_of_describe (describes : o.describe = true)
    (loaded : ModelFile.load (find d) o.model = .ok model) :
    o.run d = (.ok (Bytes.ofString model.describe), d) := by
  apply run_of_report
  simp only [report, loaded, describes, Except.mapError, bind, Except.bind, if_true]
  rfl

theorem run_of_ready (h : o.Ready d model markers cellSize) : o.run d =
    match o.out? with
    | none => (.ok (MarkerFile.contents (o.outcome model markers cellSize) ++ [10]), d)
    | some path =>
      match write d path (MarkerFile.contents (o.outcome model markers cellSize)) with
      | .ok d' => (.ok [], d')
      | .error fault => (.error (.writingMarkers path fault), d) := by
  have told := report_eq h
  cases asked : o.out? with
  | none =>
    rw [asked] at told
    exact run_of_report told
  | some path =>
    rw [asked] at told
    exact run_of_report_file told

theorem report_of_loads {e : CommandError} (loads : o.Loads d model markers)
    (h : o.runModel (find d) model = .error e) : o.report (find d) = .error e := by
  simp only [report, loads.model, loads.runs, h, Except.mapError, bind, Except.bind]
  rfl

theorem Fails.run {e : CommandError} (h : o.Fails d e) : o.run d = (.error e, d) := by
  cases h with
  | model refused =>
    apply run_of_report_error
    simp only [report, refused, Except.mapError, bind, Except.bind]
  | markers runs loaded given refused =>
    apply run_of_report_error
    simp only [report, loaded, runs, runModel, given, refused, Except.mapError, bind, Except.bind]
    rfl
  | cellSize loads count =>
    obtain ⟨path, given, read⟩ := loads.markers
    apply run_of_report_error
    apply report_of_loads loads
    simp only [runModel, given, read, gridCellSize_eq_error count, Except.mapError, bind,
      Except.bind]
  | seed loads count outside =>
    obtain ⟨path, given, read⟩ := loads.markers
    obtain ⟨x, y, z, size⟩ := List.length_eq_three.mp count
    have sized : o.gridCellSize = .ok ⟨x, y, z⟩ := gridCellSize_eq size
    apply run_of_report_error
    apply report_of_loads loads
    simp only [runModel, given, read, sized, random_eq_error outside, Except.mapError, bind,
      Except.bind]
  | output ready asked refused => simp only [run_of_ready ready, asked, refused]

/-- Nothing else can happen than an error, a description and a run of the model. -/
theorem fails_or_ready (given : o.describe = false → ∃ path, o.markers? = some path) (d : σ) :
    (∃ e, o.Fails d e) ∨
      (o.describe = true ∧ ∃ model, ModelFile.load (find d) o.model = .ok model) ∨
      ∃ model markers cellSize, o.Ready d model markers cellSize := by
  cases loaded : ModelFile.load (find d) o.model with
  | error cause => exact .inl ⟨_, .model loaded⟩
  | ok model =>
    cases runs : o.describe with
    | true => exact .inr (.inl ⟨rfl, model, rfl⟩)
    | false =>
      obtain ⟨path, given⟩ := given runs
      cases read : MarkerFile.load (find d) path with
      | error cause => exact .inl ⟨_, .markers runs loaded given read⟩
      | ok markers =>
        have loads : o.Loads d model markers := ⟨runs, loaded, path, given, read⟩
        by_cases count : o.cellSize.length = 3
        · by_cases fits : o.SeedFits
          · obtain ⟨x, y, z, size⟩ := List.length_eq_three.mp count
            exact .inr (.inr ⟨model, markers, ⟨x, y, z⟩, loads, size, fits⟩)
          · exact .inl ⟨_, .seed loads count fits⟩
        · exact .inl ⟨_, .cellSize loads count⟩

section Outcomes

variable (given : o.describe = false → ∃ path, o.markers? = some path)
include given

theorem run_cases (d : σ) :
    (∃ e, o.Fails d e ∧ o.run d = (.error e, d)) ∨
      (∃ output, (o.describe = true ∨ o.out? = none) ∧ o.run d = (.ok output, d)) ∨
      ∃ model markers cellSize path d', o.Ready d model markers cellSize ∧ o.out? = some path ∧
        write d path (MarkerFile.contents (o.outcome model markers cellSize)) = .ok d' ∧
        o.run d = (.ok [], d') := by
  rcases fails_or_ready given d with ⟨e, fails⟩ | ⟨describes, model, loaded⟩ |
    ⟨model, markers, cellSize, ready⟩
  · exact .inl ⟨e, fails, fails.run⟩
  · exact .inr (.inl ⟨_, .inl describes, run_of_describe describes loaded⟩)
  · have ended := run_of_ready ready
    cases asked : o.out? with
    | none =>
      simp only [asked] at ended
      exact .inr (.inl ⟨_, .inr rfl, ended⟩)
    | some path =>
      cases written : write d path (MarkerFile.contents (o.outcome model markers cellSize)) with
      | ok d' =>
        simp only [asked, written] at ended
        exact .inr (.inr ⟨model, markers, cellSize, path, d', ready, rfl, written, ended⟩)
      | error fault =>
        have fails : o.Fails d _ := .output ready asked written
        exact .inl ⟨_, fails, fails.run⟩

theorem run_error_iff {e : CommandError} : (o.run d).1 = .error e ↔ o.Fails d e := by
  constructor
  · intro ended
    rcases run_cases given d with ⟨e', fails, run⟩ | ⟨output, -, run⟩ | ⟨_, _, _, _, _, _, _, _, run⟩
    · rw [run] at ended
      exact Except.error.inj ended ▸ fails
    all_goals
      rw [run] at ended
      cases ended
  · intro fails
    rw [fails.run]

theorem run_keeps (quiet : o.describe = true ∨ o.out? = none) : (o.run d).2 = d := by
  rcases run_cases given d with ⟨e, -, run⟩ | ⟨output, -, run⟩ |
    ⟨model, markers, cellSize, path, d', ready, asked, -, -⟩
  · rw [run]
  · rw [run]
  · simp [ready.runs, asked] at quiet

theorem run_delivers {output : Bytes} {path : String} (ended : (o.run d).1 = .ok output)
    (runs : o.describe = false) (asked : o.out? = some path) :
    ∃ model markers cellSize, o.Ready d model markers cellSize ∧
      write d path (MarkerFile.contents (o.outcome model markers cellSize)) = .ok (o.run d).2 := by
  rcases run_cases given d with ⟨e, -, run⟩ | ⟨output, quiet, -⟩ |
    ⟨model, markers, cellSize, path', d', ready, asked', written, run⟩
  · rw [run] at ended
    cases ended
  · simp [runs, asked] at quiet
  · obtain rfl : path' = path := Option.some.inj (asked'.symm.trans asked)
    rw [run]
    exact ⟨model, markers, cellSize, ready, written⟩

end Outcomes

/-- A command that ends with an error leaves every file as it was, and it ends so for one of
the listed reasons only. A description writes nothing, and neither does a result that is
printed. A result for a file is what the model makes of the markers, and is written once; in a
directory it makes the file what it is, and no other file changes. -/
theorem run_writes_once {words : List String} (parsed : ofWords words = .ok o) :
    (∀ (σ : Type) [FileStore σ] (d : σ),
      (∀ e, (o.run d).1 = .error e ↔ o.Fails d e) ∧
      (∀ e, (o.run d).1 = .error e → (o.run d).2 = d) ∧
      (o.describe = true ∨ o.out? = none → (o.run d).2 = d) ∧
      ∀ output path, (o.run d).1 = .ok output → o.describe = false → o.out? = some path →
        ∃ model markers cellSize, o.Ready d model markers cellSize ∧
          write d path (MarkerFile.contents (o.outcome model markers cellSize)) =
            .ok (o.run d).2) ∧
    ∀ (d : Directory) output path, (o.run d).1 = .ok output → o.describe = false →
      o.out? = some path → ∃ model markers cellSize, o.Ready d model markers cellSize ∧
        d.Receives path (MarkerFile.contents (o.outcome model markers cellSize)) (o.run d).2 := by
  have given := fun runs => markers?_of_ofWords parsed runs
  refine ⟨fun σ _ d => ⟨fun e => run_error_iff given, fun e ended => ?_, run_keeps given,
    fun output path => run_delivers given⟩, fun d output path ended runs asked => ?_⟩
  · rw [((run_error_iff given).mp ended).run]
  · obtain ⟨model, markers, cellSize, ready, written⟩ := run_delivers given ended runs asked
    exact ⟨model, markers, cellSize, ready, Directory.receives_of_write written⟩

def hallOptions : Options where
  model := "hall.json"
  markers? := some "tiles.json"
  seed := -3
  out? := some "out.json"
  engine := true
  cellSize := standardCellSize
  describe := false

def hallModel : Model := ⟨[Processor.paved]⟩

def hallFiles : Directory :=
  ⟨((NameMap.empty.insert "hall.json" (ModelFile.Format.json.write hallModel)).insert "tiles.json"
    (MarkerFile.contents [Processor.floorTile]))⟩

def standardCell : Vec3 Binary32 := ⟨.ofNat 400, .ofNat 400, .ofNat 200⟩

theorem ready_hallFiles :
    hallOptions.Ready hallFiles hallModel [Processor.floorTile] standardCell where
  runs := rfl
  model := by
    have leads : Directory.fileName? "hall.json" = some "hall.json" := by decide +kernel
    have format : ModelFile.Format.ofPath "hall.json" = .json := by decide +kernel
    have found : hallFiles.find "hall.json" =
        .ok (.file (ModelFile.Format.json.write hallModel)) := by
      rw [hallFiles, Directory.find_insert leads, Directory.find_insert leads, if_neg (by decide),
        if_pos rfl]
    change ModelFile.load hallFiles.find "hall.json" = _
    rw [ModelFile.load, format, found, ModelFile.Format.read_write_json (by decide)]
  markers := by
    have leads : Directory.fileName? "tiles.json" = some "tiles.json" := by decide +kernel
    have found : hallFiles.find "tiles.json" =
        .ok (.file (MarkerFile.contents [Processor.floorTile])) := by
      rw [hallFiles, Directory.find_insert leads, if_pos rfl]
    have reads := Stored.readsIf_list (l := [Processor.floorTile]) fun m _ => m.readsIf
    have back := reads.ofText (by decide)
    refine ⟨"tiles.json", rfl, ?_⟩
    change MarkerFile.load hallFiles.find "tiles.json" = _
    simp only [MarkerFile.load, found, ModelFile.readJson, MarkerFile.contents, back,
      Except.mapError]
  size := rfl
  seed := by simp [SeedFits, hallOptions]

theorem run_writes_once_hallFiles :
    ofWords ["hall.json", "tiles.json", "-s", "-3", "--engine-rng", "--out=out.json"] =
        .ok hallOptions ∧
      hallOptions.Fails Directory.empty (.loadingModel "hall.json" (.file .notFound)) ∧
      (hallOptions.run Directory.empty).2 = Directory.empty ∧
      (hallOptions.run hallFiles).1 = .ok [] ∧
      hallFiles.Receives "out.json" (MarkerFile.contents ((Processor.mk .identity standardCell).apply
        hallModel [Processor.floorTile] (Congruential.ofSeed 0xfffffffd)).1)
        (hallOptions.run hallFiles).2 := by
  have parsed : ofWords ["hall.json", "tiles.json", "-s", "-3", "--engine-rng",
      "--out=out.json"] = .ok hallOptions := by decide +kernel
  obtain ⟨clean, delivers⟩ := run_writes_once parsed
  have fails : hallOptions.Fails Directory.empty (.loadingModel "hall.json" (.file .notFound)) :=
    .model (by decide +kernel)
  obtain ⟨reasons, kept, -⟩ := clean Directory Directory.empty
  have leads : Directory.fileName? "out.json" = some "out.json" := by decide +kernel
  have asked : hallOptions.out? = some "out.json" := rfl
  have finished : (hallOptions.run hallFiles).1 = .ok [] := by
    have written : write hallFiles "out.json" (MarkerFile.contents
        (hallOptions.outcome hallModel [Processor.floorTile] standardCell)) = .ok _ :=
      Directory.write_eq leads hallFiles _
    have ended := run_of_ready ready_hallFiles
    simp only [asked, written] at ended
    rw [ended]
  obtain ⟨model, markers, cellSize, ready, received⟩ :=
    delivers hallFiles [] "out.json" finished rfl asked
  obtain ⟨rfl, rfl, rfl⟩ := ready.unique ready_hallFiles
  have seed : UInt32.ofInt hallOptions.seed = 0xfffffffd := by decide
  rw [outcome, seed, if_pos (show hallOptions.engine = true from rfl)] at received
  exact ⟨parsed, fails, kept _ ((reasons _).mpr fails), finished, received⟩

end Options

end MarkerLattice
